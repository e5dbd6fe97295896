import Intcode.Proofs.Capacity
import Intcode.Proofs.Erasure
import Intcode.Proofs.Resetting

/-! # Snapshots

A snapshot leaves out the zeros at the end of memory, and as the capacity is known they can be put
back (`Memory.cells_eq_used`, `Memory.eq_of_used`). It also leaves out where output went, how often
the provider was asked, and more of the count of instructions than fits into 64 bits. None of this
has a part in what a machine does (`Machine.erasure_recorded`).

So a snapshot says all that matters to how its machine goes on. Machines over the same program, under
the same settings and with equal snapshots give the same answers to whatever is done to them, and
their snapshots stay equal (`Machine.snapshots_are_resume_points`). -/

namespace Intcode

namespace Memory

/-- The cells that are not counted as used are zero. -/
theorem take_eq_append_zeros (cells : Array Word) (least : Nat) {count : Nat}
    (inside : count ≤ cells.size) :
    cells.toList.take count =
      cells.toList.take (usedCount cells least count) ++
        List.replicate (count - usedCount cells least count) 0 := by
  induction count with
  | zero => rfl
  | succ count ih =>
      unfold usedCount
      split
      · rw [Nat.sub_self, List.replicate_zero, List.append_nil]
      · split
        · rename_i zero
          have few := usedCount_le cells least count
          have last : cells.toList[count]? = some 0 := by rwa [Array.getElem?_toList]
          rw [List.take_add_one, ih (Nat.le_of_succ_le inside), last, Option.toList_some,
            List.append_assoc, Nat.succ_sub few, List.replicate_succ']
        · rw [Nat.sub_self, List.replicate_zero, List.append_nil]

theorem length_used (memory : Memory) :
    memory.used.length = usedCount memory.cells memory.program.size memory.capacity := by
  rw [used, List.length_take, Array.length_toList]
  exact Nat.min_eq_left (usedCount_le ..)

/-- **Nothing is lost.** The used cells with zeros behind them, as many as the capacity asks for, are
all cells. -/
theorem cells_eq_used (memory : Memory) :
    memory.cells.toList =
      memory.used ++ List.replicate (memory.capacity - memory.used.length) 0 := by
  have whole := take_eq_append_zeros memory.cells memory.program.size (Nat.le_refl memory.capacity)
  rw [length_used, used, ← whole]
  exact (List.take_length ..).symm

theorem eq_of_used {left right : Memory} (program : left.program = right.program)
    (capacity : left.capacity = right.capacity) (used : left.used = right.used) : left = right := by
  apply eq_of_fields program
  rw [← Array.toList_inj, left.cells_eq_used, right.cells_eq_used, capacity, used]

end Memory

namespace Bridge

/-- The bridge with nothing but its queue, its provider and the newest output. -/
def recorded (bridge : Bridge) : Bridge where
  input := bridge.input
  provider := bridge.provider
  lastOutput := bridge.lastOutput

theorem erasure_recorded : Erasure recorded where
  settled _ := rfl
  lastOutput_eq _ := rfl
  feed _ _ := rfl
  pop bridge := by cases queued : bridge.input <;> simp [pop, recorded, queued]
  ask bridge := by
    cases registered : bridge.provider with
    | none => simp [ask, recorded, registered]
    | some answers => cases answers <;> simp [ask, recorded, registered]
  emit bridge value := by cases sink : bridge.sink <;> simp [emit, recorded, sink]

end Bridge

namespace Machine

variable {m n : Machine}

/-- The machine with what its snapshot records and with its provider, and nothing else that changes
while it runs. -/
def recorded (m : Machine) : Machine :=
  { m with bridge := m.bridge.recorded, steps := (UInt64.ofNat m.steps).toNat }

/-- What a snapshot records is the snapshot and, the provider apart, nothing else. -/
theorem snapshot_recorded (m : Machine) : m.recorded.snapshot = m.snapshot := by
  simp only [snapshot, recorded, UInt64.ofNat_toNat]
  rfl

/-- **What a snapshot leaves out has no part in running.** -/
theorem erasure_recorded : Erasure recorded :=
  Bridge.erasure_recorded.machine (fun steps => (UInt64.ofNat steps).toNat)
    (fun _ => by rw [UInt64.ofNat_toNat])
    fun _ => by rw [UInt64.ofNat_add, UInt64.ofNat_toNat, UInt64.ofNat_add]

/-- Machines over the same program, under the same settings and with the same provider are told apart
by their snapshots, as far as running is concerned. -/
theorem BuiltFrom.recorded_eq_of_snapshot {program : Program} {config : Config}
    (left : n.BuiltFrom program config) (right : m.BuiltFrom program config)
    (provider : n.bridge.provider = m.bridge.provider) (same : n.snapshot = m.snapshot) :
    n.recorded = m.recorded := by
  have memory : n.memory = m.memory :=
    Memory.eq_of_used (left.program_eq.trans right.program_eq.symm)
      (left.room.trans right.room.symm) (congrArg Snapshot.memory same)
  have input : n.bridge.input = m.bridge.input := congrArg Snapshot.pendingInput same
  have newest : n.bridge.lastOutput = m.bridge.lastOutput := congrArg Snapshot.lastOutput same
  have steps : UInt64.ofNat n.steps = UInt64.ofNat m.steps := congrArg Snapshot.steps same
  have state : n.state = m.state := congrArg Snapshot.state same
  have ip : n.ip = m.ip := congrArg Snapshot.ip same
  have base : n.relativeBase = m.relativeBase := congrArg Snapshot.relativeBase same
  have config : n.config = m.config := left.config_eq.trans right.config_eq.symm
  simp only [recorded, Bridge.recorded, memory, input, provider, newest, steps, state, ip, base,
    config]

end Machine

/-- Whether an operation looks at the output that nobody took. -/
def Operation.readsOutbox : Operation → Bool
  | .takeOutput | .drainOutput => true
  | _ => false

namespace Machine

variable {m n : Machine}

/-- An operation answers the same on machines with equal records, or returns on neither, and leaves
equal records. -/
theorem perform_recorded (alike : n.recorded = m.recorded) (fuel : Nat) {operation : Operation}
    (blind : operation.readsOutbox = false) :
    (n.perform fuel operation).map (Prod.map id recorded) =
      (m.perform fuel operation).map (Prod.map id recorded) := by
  have memory : n.memory = m.memory := (congrArg Machine.memory alike :)
  cases operation with
  | takeOutput | drainOutput => cases blind
  | step =>
      obtain ⟨same, left⟩ := erasure_recorded.step alike
      simp only [perform, Option.map_some, Prod.map_apply, id_eq, same, left]
  | run suspend input =>
      have same := congrArg (Option.map (Prod.map (Except.map Answer.value) id))
        (erasure_recorded.run alike suspend fuel input)
      simp only [Option.map_map] at same
      simp only [perform, Option.map_map]
      exact same
  | poke address value =>
      have patched : ∀ memory : Memory,
          { n with memory }.recorded = { m with memory }.recorded := fun memory =>
        congrArg (fun other : Machine => { other with memory }) alike
      simp only [perform, poke, memory]
      cases m.memory.write address value with
      | error error => exact congrArg (fun last => some (_, last)) alike
      | ok memory => exact congrArg (fun last => some (_, last)) (patched memory)
  | peek address =>
      simp only [perform, peek, memory, Option.map_some, Prod.map_apply, alike]
  | snapshot =>
      have same : n.snapshot = m.snapshot := by
        rw [← snapshot_recorded n, alike, snapshot_recorded m]
      simp only [perform, same, Option.map_some, Prod.map_apply, alike]
  | feed values =>
      have fed : (n.feed values).recorded = (m.feed values).recorded :=
        congrArg (·.feed values) alike
      simp only [perform, Option.map_some, Prod.map_apply, fed]
  | setProvider answers =>
      have set : (n.setProvider answers).recorded = (m.setProvider answers).recorded :=
        (congrArg (fun other : Machine => other.setProvider answers) alike :)
      simp only [perform, Option.map_some, Prod.map_apply, set]
  | setSink =>
      have set : n.setSink.recorded = m.setSink.recorded := alike
      simp only [perform, Option.map_some, Prod.map_apply, set]
  | clearCallbacks =>
      have cleared : n.clearCallbacks.recorded = m.clearCallbacks.recorded :=
        (congrArg (fun other : Machine => other.clearCallbacks) alike :)
      simp only [perform, Option.map_some, Prod.map_apply, cleared]
  | reset =>
      have reset : n.reset.recorded = m.reset.recorded :=
        (congrArg (fun other : Machine => other.reset.recorded) alike :)
      simp only [perform, Option.map_some, Prod.map_apply, reset]

theorem performAll_recorded (alike : n.recorded = m.recorded) (fuel : Nat)
    {operations : List Operation} (blind : ∀ operation ∈ operations, operation.readsOutbox = false) :
    (n.performAll fuel operations).map (Prod.map id recorded) =
      (m.performAll fuel operations).map (Prod.map id recorded) := by
  induction operations generalizing m n with
  | nil => simp only [performAll, Option.map_some, Prod.map_apply, alike]
  | cons operation rest ih =>
      obtain ⟨here, elsewhere⟩ := List.forall_mem_cons.mp blind
      have first := perform_recorded alike fuel here
      simp only [performAll]
      cases there : m.perform fuel operation with
      | none =>
          rw [there, Option.map_none, Option.map_eq_none_iff] at first
          rw [first]
      | some pair =>
          obtain ⟨answer, next⟩ := pair
          rw [there] at first
          obtain ⟨⟨answer', after⟩, performed, same⟩ := Option.map_eq_some_iff.mp first
          obtain ⟨rfl, left⟩ := Prod.mk.inj same
          rw [performed]
          have later := congrArg (Option.map (Prod.map (answer' :: ·) id)) (ih left elsewhere)
          simp only [Option.map_map] at later ⊢
          exact later

/-- **A snapshot is all there is to resume from.** Let two machines over the same program and under
the same settings come out of any two sessions, with the same provider or with none, and let their
snapshots be equal. Then whatever is done to both comes to the same, answer by answer, or returns on
neither, and leaves equal snapshots. Only the output that nobody took may differ, and is not to be
asked for: it has a part in nothing else. -/
theorem snapshots_are_resume_points {program : Program} {config : Config} {m n : Machine}
    {fuel fuel' : Nat} {operations operations' : List Operation}
    {answers answers' : List (Except Error Answer)}
    (reached : (ofProgram program config).performAll fuel operations = some (answers, m))
    (reached' : (ofProgram program config).performAll fuel' operations' = some (answers', n))
    (provider : n.bridge.provider = m.bridge.provider) (same : n.snapshot = m.snapshot)
    {later : List Operation} (blind : ∀ operation ∈ later, operation.readsOutbox = false)
    (turns : Nat) :
    (n.performAll turns later).map (fun went => (went.1, went.2.snapshot)) =
      (m.performAll turns later).map fun went => (went.1, went.2.snapshot) := by
  have left := (builtFrom_ofProgram program config).performAll reached'
  have right := (builtFrom_ofProgram program config).performAll reached
  have goesOn := congrArg (Option.map fun went => (went.1, went.2.snapshot))
    (performAll_recorded (left.recorded_eq_of_snapshot right provider same) turns blind)
  simpa only [Option.map_map, Function.comp_def, Prod.map_fst, Prod.map_snd, id_eq,
    snapshot_recorded] using goesOn

/-- A run of the echo to its output, which nobody takes. -/
def leftLying : List Operation :=
  [.run .onOutput [7]]

/-- The same by single steps, after an earlier run that was reset, with the output taken. -/
def takenAway : List Operation :=
  [.setSink, .run .never [4], .clearCallbacks, .reset, .feed [7], .step, .step, .drainOutput]

/-- What is done afterwards. -/
def afterwards : List Operation :=
  [.poke 5 9, .peek 5, .feed [2], .run .never [], .reset, .run .onInput [], .step]

/-- The machines are different, and go on the same way. -/
theorem echo_resumes :
    (∀ operation ∈ afterwards, operation.readsOutbox = false) ∧ ∃ answers m answers' n,
      (ofProgram echo { scratchCells := 1 }).performAll 4 leftLying = some (answers, m) ∧
      (ofProgram echo { scratchCells := 1 }).performAll 4 takenAway = some (answers', n) ∧
      n.bridge.provider = m.bridge.provider ∧ n.snapshot = m.snapshot ∧
      n.bridge.outbox = #[] ∧ m.bridge.outbox = #[7] ∧
      (n.performAll 4 afterwards).map (fun went => (went.1, went.2.snapshot)) =
        (m.performAll 4 afterwards).map fun went => (went.1, went.2.snapshot) := by
  have blind : ∀ operation ∈ afterwards, operation.readsOutbox = false := by decide
  have lying : ((ofProgram echo { scratchCells := 1 }).performAll 4 leftLying).map
      (fun went => (went.2.bridge.provider, went.2.snapshot, went.2.bridge.outbox)) =
        some (none, ⟨.paused, 4, 0, 2, some 7, [], [3, 5, 4, 5, 99, 7]⟩, #[7]) := by
    decide +kernel
  have away : ((ofProgram echo { scratchCells := 1 }).performAll 4 takenAway).map
      (fun went => (went.2.bridge.provider, went.2.snapshot, went.2.bridge.outbox)) =
        some (none, ⟨.paused, 4, 0, 2, some 7, [], [3, 5, 4, 5, 99, 7]⟩, #[]) := by
    decide +kernel
  obtain ⟨⟨answers, m⟩, reached, left⟩ := Option.map_eq_some_iff.mp lying
  obtain ⟨⟨answers', n⟩, reached', right⟩ := Option.map_eq_some_iff.mp away
  simp only [Prod.mk.injEq] at left right
  obtain ⟨provider, snapshot, outbox⟩ := left
  obtain ⟨provider', snapshot', outbox'⟩ := right
  exact ⟨blind, answers, m, answers', n, reached, reached', provider'.trans provider.symm,
    snapshot'.trans snapshot.symm, outbox', outbox,
    snapshots_are_resume_points reached reached' (provider'.trans provider.symm)
      (snapshot'.trans snapshot.symm) blind 4⟩

end Machine

end Intcode
