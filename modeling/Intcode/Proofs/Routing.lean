import Intcode.Proofs.Erasure
import Intcode.Proofs.SessionHistory

/-! # Where output goes

Output goes to the sink that is registered, or else to the outbox. Where it goes has no part in what
a machine does: machines that are the same without these places (`Machine.unrouted`) do the same,
and registering a sink makes no difference to what is done later. So a session with other sinks,
registered at other times, executes the same instructions on the same memory and registers and
leaves the same machine, its places for output apart (`Machine.sessions_alike`). -/

namespace Intcode

namespace Bridge

/-- The bridge without the places that output goes to. -/
def unrouted (bridge : Bridge) : Bridge :=
  { bridge with outbox := #[], sink := none, oldTapes := [] }

theorem erasure_unrouted : Erasure unrouted where
  settled _ := rfl
  lastOutput_eq _ := rfl
  feed _ _ := rfl
  pop bridge := by cases queued : bridge.input <;> simp [pop, unrouted, queued]
  ask bridge := by
    cases registered : bridge.provider with
    | none => simp [ask, unrouted, registered]
    | some answers => cases answers <;> simp [ask, unrouted, registered]
  emit bridge value := by cases sink : bridge.sink <;> simp [emit, unrouted, sink]

end Bridge

namespace Machine

variable {m n : Machine} {operations others : List Operation}

/-- The machine without the places that output goes to. -/
def unrouted (m : Machine) : Machine :=
  { m with bridge := m.bridge.unrouted }

/-- The places that output goes to have no part in what a machine does. -/
theorem erasure_unrouted : Erasure unrouted :=
  Bridge.erasure_unrouted.machine id (fun _ => rfl) fun _ => rfl

namespace Change

/-- The value that an output instruction puts out. -/
def emitted (change : Change) : List Word :=
  match change.cause with
  | .executing source => handedOut (change.before.execute source).1
  | _ => []

/-- The machine on which an instruction is executed, without the places that output goes to. -/
def instruction? (change : Change) : Option (Machine × InputSource) :=
  match change.cause with
  | .executing source => some (change.before.unrouted, source)
  | _ => none

@[simp] theorem instruction?_executing (before after : Machine) (source : InputSource) :
    (mk before (.executing source) after).instruction? = some (before.unrouted, source) :=
  rfl

@[simp] theorem instruction?_aside (before after : Machine) :
    (mk before .aside after).instruction? = none :=
  rfl

@[simp] theorem instruction?_accepting (before after : Machine) (values : List Word) :
    (mk before (.accepting values) after).instruction? = none :=
  rfl

end Change

/-- The instructions that are executed in a session, one after the other. -/
def instructions (fuel : Nat) (m : Machine) (operations : List Operation) :
    List (Machine × InputSource) :=
  (m.history fuel operations).filterMap (·.instruction?)

/-! ## Calls -/

/-- An operation does the same wherever output goes, whatever it answers. -/
theorem perform_alike (alike : n.unrouted = m.unrouted) (fuel : Nat) (operation : Operation) :
    (n.perform fuel operation).map (·.2.unrouted) =
      (m.perform fuel operation).map (·.2.unrouted) := by
  cases operation with
  | step => exact congrArg some (erasure_unrouted.step alike).2
  | run suspend input =>
      have ran := congrArg (Option.map Prod.snd) (erasure_unrouted.run alike suspend fuel input)
      simp only [Option.map_map] at ran
      simp only [perform, Option.map_map]
      exact ran
  | poke address value =>
      have memory : n.memory = m.memory := (congrArg Machine.memory alike :)
      simp only [perform, poke, memory]
      cases m.memory.write address value with
      | error error => exact congrArg some alike
      | ok patched =>
          exact congrArg (fun machine : Machine => some { machine with memory := patched }) alike
  | peek | snapshot | takeOutput | drainOutput | setSink => exact congrArg some alike
  | feed values => exact congrArg (fun machine : Machine => some (machine.feed values)) alike
  | setProvider answers =>
      exact congrArg (fun machine : Machine => some (machine.setProvider answers)) alike
  | clearCallbacks =>
      exact congrArg (fun machine : Machine =>
        some { machine with bridge := { machine.bridge with provider := none } }) alike
  | reset => exact congrArg (fun machine : Machine => some machine.reset) alike

/-! ## Sessions -/

theorem runChanges_alike (alike : n.unrouted = m.unrouted) (suspend : Suspend) (fuel : Nat) :
    (runChanges suspend fuel n).filterMap (·.instruction?) =
      (runChanges suspend fuel m).filterMap (·.instruction?) := by
  induction fuel generalizing m n with
  | zero => rfl
  | succ fuel ih =>
      rcases erasure_unrouted.runTurn alike suspend with
        ⟨after, next, here, there, same⟩ | ⟨result, after, next, here, there, same⟩
      · simp only [runChanges, here, there, List.filterMap_cons, Change.instruction?_executing,
          alike, ih same]
      · simp only [runChanges, here, there, List.filterMap_cons, Change.instruction?_executing,
          Change.instruction?_aside, alike]

/-- An operation executes the same instructions wherever output goes. -/
theorem changes_alike (alike : n.unrouted = m.unrouted) (fuel : Nat) (operation : Operation) :
    (n.changes fuel operation).filterMap (·.instruction?) =
      (m.changes fuel operation).filterMap (·.instruction?) := by
  have state : n.state = m.state := (congrArg Machine.state alike :)
  have aside (went : Option (Except Error Answer × Machine)) (machine : Machine) :
      (went.toList.map fun went => Change.mk machine .aside went.2).filterMap
        (·.instruction?) = [] := by
    cases went <;> rfl
  cases operation with
  | step =>
      have resumed : n.resumed.unrouted = m.resumed.unrouted :=
        congrArg (fun machine : Machine => machine.resumed) alike
      cases terminal : m.state.isTerminal <;>
        simp [changes, state, terminal, resumed, List.filterMap_cons]
  | run suspend input =>
      have started : (n.started input).unrouted = (m.started input).unrouted :=
        congrArg (fun machine : Machine => machine.started input) alike
      cases terminal : m.state.isTerminal <;>
        simp [changes, state, terminal, runChanges_alike started, List.filterMap_cons]
  | feed | takeOutput | drainOutput | setProvider | clearCallbacks => rfl
  | peek | poke | snapshot | setSink | reset =>
      exact (aside _ n).trans (aside _ m).symm

theorem instructions_cons (m : Machine) (fuel : Nat) (operation : Operation)
    (operations : List Operation) :
    m.instructions fuel (operation :: operations) =
      (m.changes fuel operation).filterMap (·.instruction?) ++
        match m.perform fuel operation with
        | none => []
        | some (_, next) => next.instructions fuel operations := by
  unfold instructions
  rw [history, List.filterMap_append]
  cases m.perform fuel operation <;> rfl

/-- Sinks that are registered on the way make no difference. -/
theorem unregistered_alike (alike : n.unrouted = m.unrouted) (fuel : Nat)
    (operations : List Operation) :
    n.instructions fuel (operations.filter (· ≠ .setSink)) = m.instructions fuel operations ∧
      (n.performAll fuel (operations.filter (· ≠ .setSink))).map (·.2.unrouted) =
        (m.performAll fuel operations).map (·.2.unrouted) := by
  induction operations generalizing m n with
  | nil => exact ⟨rfl, congrArg some alike⟩
  | cons operation rest ih =>
      by_cases sink : operation = .setSink
      · subst sink
        have unregistered : (Operation.setSink :: rest).filter (· ≠ .setSink) =
            rest.filter (· ≠ .setSink) := by simp
        rw [unregistered]
        obtain ⟨same, leaves⟩ := ih (m := m.setSink) alike
        refine ⟨same, leaves.trans ?_⟩
        simp only [performAll, perform, Option.map_map]
        rfl
      · have registered : (operation :: rest).filter (· ≠ .setSink) =
            operation :: rest.filter (· ≠ .setSink) := by simp [sink]
        have went := perform_alike alike fuel operation
        rw [registered, instructions_cons, instructions_cons, changes_alike alike]
        simp only [performAll]
        cases there : m.perform fuel operation with
        | none =>
            rw [there, Option.map_none, Option.map_eq_none_iff] at went
            simp only [went, and_self]
        | some pair =>
            obtain ⟨answer, next⟩ := pair
            rw [there, Option.map_some] at went
            obtain ⟨⟨other, after⟩, here, same⟩ := Option.map_eq_some_iff.mp went
            obtain ⟨further, leaves⟩ := ih same
            rw [here]
            refine ⟨congrArg _ further, ?_⟩
            simp only [Option.map_map]
            exact leaves

/-- **Output may go anywhere.** Let two machines be the same without the places that output goes to,
and let the same be done to them but for the sinks that are registered on the way. Then they execute
the same instructions on the same memory, registers and input, and in the end they are the same
without the places that output goes to. -/
theorem sessions_alike (alike : n.unrouted = m.unrouted)
    (same : others.filter (· ≠ .setSink) = operations.filter (· ≠ .setSink)) (fuel : Nat) :
    n.instructions fuel others = m.instructions fuel operations ∧
      (n.performAll fuel others).map (·.2.unrouted) =
        (m.performAll fuel operations).map (·.2.unrouted) := by
  obtain ⟨first, leavesFirst⟩ := unregistered_alike (Eq.refl n.unrouted) fuel others
  obtain ⟨second, leavesSecond⟩ := unregistered_alike alike fuel operations
  rw [same] at first leavesFirst
  exact ⟨first.symm.trans second, leavesFirst.symm.trans leavesSecond⟩

/-- The values that are put out depend on the instructions alone. -/
theorem emitted_eq (changes : List Change) :
    changes.flatMap (·.emitted) =
      (changes.filterMap (·.instruction?)).flatMap fun (m, source) =>
        handedOut (m.execute source).1 := by
  induction changes with
  | nil => rfl
  | cons change rest ih =>
      obtain ⟨before, cause, after⟩ := change
      rw [List.flatMap_cons, ih, List.filterMap_cons]
      cases cause with
      | executing source =>
          have alike : before.unrouted.unrouted = before.unrouted := rfl
          have outcomes := (erasure_unrouted.execute alike source).1
          simp only [Change.instruction?_executing, List.flatMap_cons, outcomes]
          rfl
      | accepting | taking | providing | clearing | aside => rfl

end Machine

end Intcode
