import Intcode.Proofs.Runs

/-! # Operations on a machine

All that a caller can do to a machine is one of a few operations (`Operation`), and each returns an
answer together with the machine it leaves (`Machine.perform`). A session is a row of operations,
performed one after the other (`Machine.performAll`).

A run need not return, so performing takes the number of turns that a run may make, and has no
result when they did not suffice.

Operations execute instructions, mark the state, change what is queued, buffered or registered,
patch single cells, or reset. What all of these keep, a session keeps
(`Machine.performAll_preserves`). -/

namespace Intcode

/-- An operation on a machine. Text is fed as the row of its bytes. -/
inductive Operation
  | step
  | run (suspend : Suspend) (input : List Word)
  | feed (values : List Word)
  | peek (address : Word)
  | poke (address value : Word)
  | snapshot
  | takeOutput
  | drainOutput
  | setSink
  | setProvider (answers : List (Option Word))
  | clearCallbacks
  | reset
  deriving DecidableEq, Repr

/-- What an operation answers when it does not fail. -/
inductive Answer
  | nothing
  | step (step : Step)
  | value (value : Option Word)
  | cell (value : Word)
  | values (values : List Word)
  | snapshot (snapshot : Snapshot)
  deriving DecidableEq, Repr

instance : DecidableEq (Except Error Answer)
  | .ok answer, .ok other => decidable_of_iff (answer = other) ⟨congrArg Except.ok, Except.ok.inj⟩
  | .error error, .error other =>
      decidable_of_iff (error = other) ⟨congrArg Except.error, Except.error.inj⟩
  | .ok _, .error _ => .isFalse nofun
  | .error _, .ok _ => .isFalse nofun

namespace Machine

/-- Performs an operation, of which a run may make `fuel` turns. -/
def perform (fuel : Nat) (m : Machine) : Operation → Option (Except Error Answer × Machine)
  | .step => some (m.step.1.map .step, m.step.2)
  | .run suspend input =>
      (m.run suspend fuel input).map fun (result, next) => (result.map .value, next)
  | .feed values => some (.ok .nothing, m.feed values)
  | .peek address => some ((m.peek address).map .cell, m)
  | .poke address value =>
      match m.poke address value with
      | .error error => some (.error error, m)
      | .ok next => some (.ok .nothing, next)
  | .snapshot => some (.ok (.snapshot m.snapshot), m)
  | .takeOutput => some (.ok (.value m.takeOutput.1), m.takeOutput.2)
  | .drainOutput => some (.ok (.values m.drainOutput.1), m.drainOutput.2)
  | .setSink => some (.ok .nothing, m.setSink)
  | .setProvider answers => some (.ok .nothing, m.setProvider answers)
  | .clearCallbacks => some (.ok .nothing, m.clearCallbacks)
  | .reset => some (.ok .nothing, m.reset)

/-- Performs operations one after the other. There is no result when one of them does not return. -/
def performAll (fuel : Nat) :
    Machine → List Operation → Option (List (Except Error Answer) × Machine)
  | m, [] => some ([], m)
  | m, operation :: rest =>
      match m.perform fuel operation with
      | none => none
      | some (answer, next) =>
          (performAll fuel next rest).map fun (answers, final) => (answer :: answers, final)

variable {m next final : Machine} {fuel : Nat} {operation : Operation} {operations : List Operation}
  {answer : Except Error Answer} {answers : List (Except Error Answer)}

theorem performAll_cons_eq_some_iff :
    m.performAll fuel (operation :: operations) = some (answers, final) ↔
      ∃ answer next others, m.perform fuel operation = some (answer, next) ∧
        next.performAll fuel operations = some (others, final) ∧ answers = answer :: others := by
  rw [performAll]
  cases m.perform fuel operation with
  | none => simp
  | some pair =>
      obtain ⟨answer, next⟩ := pair
      simp only [Option.map_eq_some_iff, Prod.exists, Prod.mk.injEq, Option.some.injEq]
      constructor
      · rintro ⟨others, last, later, rfl, rfl⟩
        exact ⟨answer, next, others, ⟨rfl, rfl⟩, later, rfl⟩
      · rintro ⟨_, _, others, ⟨rfl, rfl⟩, later, rfl⟩
        exact ⟨others, final, later, rfl, rfl⟩

/-- Patching puts a value into a cell, or fails and leaves the machine. -/
theorem perform_poke_cases {address value : Word}
    (performed : m.perform fuel (.poke address value) = some (answer, next)) :
    next = m ∨ ∃ index, next = { m with memory := m.memory.put index value } := by
  simp only [perform, poke, Memory.write] at performed
  cases found : m.memory.locate "memory::write" address with
  | error error =>
      rw [found] at performed
      cases performed
      exact .inl rfl
  | ok index =>
      rw [found] at performed
      cases performed
      exact .inr ⟨index, rfl⟩

/-- What instructions, marks, changes of the bridge, patches and resets keep, an operation
keeps. -/
theorem perform_preserves {P : Machine → Prop}
    (executed : ∀ {source : InputSource} {m next : Machine} {outcome : Except Error Step},
      Executes source m outcome next → P m → P next)
    (marked : ∀ {m : Machine} (state : State), P m → P { m with state })
    (bridged : ∀ {m : Machine} (bridge : Bridge), P m → P { m with bridge })
    (patched : ∀ {m : Machine} (index : Fin m.memory.cells.size) (value : Word),
      P m → P { m with memory := m.memory.put index value })
    (reset : ∀ {m : Machine}, P m → P m.reset)
    (performed : m.perform fuel operation = some (answer, next)) (holds : P m) : P next := by
  cases operation with
  | step =>
      cases performed
      exact step_preserves executed marked holds
  | run suspend input =>
      obtain ⟨⟨result, last⟩, returned, same⟩ := Option.map_eq_some_iff.mp performed
      cases same
      exact run_preserves executed marked returned holds (bridged _ holds)
  | poke address value =>
      rcases perform_poke_cases performed with rfl | ⟨index, rfl⟩
      · exact holds
      · exact patched index value holds
  | peek | snapshot =>
      cases performed
      exact holds
  | reset =>
      cases performed
      exact reset holds
  | feed | takeOutput | drainOutput | setSink | setProvider | clearCallbacks =>
      cases performed
      exact bridged _ holds

theorem performAll_preserves {P : Machine → Prop}
    (kept : ∀ {m next : Machine} {operation : Operation} {answer : Except Error Answer},
      m.perform fuel operation = some (answer, next) → P m → P next)
    (performed : m.performAll fuel operations = some (answers, final)) (holds : P m) :
    P final := by
  induction operations generalizing m answers with
  | nil =>
      cases performed
      exact holds
  | cons operation rest ih =>
      obtain ⟨answer, next, others, first, later, _⟩ := performAll_cons_eq_some_iff.mp performed
      exact ih later (kept first holds)

end Machine

end Intcode
