import Intcode.Machine.Step

/-! # What one instruction can do

Executing an instruction is carrying out a plan: the fetched instruction with its effect, which
memory, instruction pointer and relative base decide alone (`Machine.plan`). An address that is
written has been resolved before, so writing always finds its cell (`Machine.exists_target`), and
an instruction has ten outcomes, listed once by `Machine.Executes`. What a later module says about
every instruction is read off this list.

Which source an input instruction turns to matters only when nothing is queued. A machine without
a provider then either underruns by its policy or is left as it was
(`Machine.execute_eq_policy_or_waits`). -/

namespace Intcode

theorem bind_eq_ok {ε α β : Type} {first : Except ε α} {second : α → Except ε β} {value : β} :
    first >>= second = .ok value ↔ ∃ middle, first = .ok middle ∧ second middle = .ok value := by
  cases first with
  | error error => simp [bind, Except.bind]
  | ok middle => simp [bind, Except.bind]

theorem bind_eq_error {ε α β : Type} {first : Except ε α} {second : α → Except ε β} {fault : ε} :
    first >>= second = .error fault ↔
      first = .error fault ∨ ∃ middle, first = .ok middle ∧ second middle = .error fault := by
  cases first with
  | error error => simp [bind, Except.bind]
  | ok middle => simp [bind, Except.bind]

namespace Memory

variable {memory : Memory} {address slot base : Word} {mode : Mode} {param : Param}

/-- Only the error of a missing cell depends on the operation that looks for it. -/
theorem locate_congr {operation : String} {index : Fin memory.cells.size}
    (found : memory.locate operation address = .ok index) (other : String) :
    memory.locate other address = .ok index := by
  unfold locate at found ⊢
  split at found
  · cases found
  · split at found
    · rename_i nonnegative inside
      simpa only [nonnegative, inside, ↓reduceIte, ↓reduceDIte] using found
    · cases found

theorem exists_locate_of_read {value : Word} (found : memory.read address = .ok value)
    (operation : String) : ∃ index, memory.locate operation address = .ok index := by
  unfold read at found
  cases place : memory.locate "memory::read" address with
  | error error => rw [place] at found; cases found
  | ok index => exact ⟨index, locate_congr place operation⟩

theorem exists_locate_of_resolve (resolved : memory.resolve slot mode base = .ok param)
    (operation : String) : ∃ index, memory.locate operation param.address = .ok index := by
  obtain ⟨operand, _, resolved⟩ := bind_eq_ok.mp resolved
  obtain ⟨value, found, rest⟩ := bind_eq_ok.mp resolved
  cases rest
  exact exists_locate_of_read found operation

end Memory

namespace Effect

/-- The address an effect writes to. -/
def target? : Effect → Option Word
  | .store address _ | .input address => some address
  | _ => none

/-- An effect writes to the place of the parameter its operation writes. -/
theorem target?_of (opcode : Opcode) (params : Vector Param maxParams) :
    (of opcode params).target? =
      opcode.writeParam?.map fun target => (params.get target).address := by
  cases opcode with
  | jumpIfTrue | jumpIfFalse =>
      simp only [of, jumpWhen]
      split <;> rfl
  | _ => rfl

end Effect

theorem Opcode.writeParam?_lt_arity {opcode : Opcode} {target : Fin maxParams}
    (writes : opcode.writeParam? = some target) : target.val < opcode.arity := by
  cases opcode <;> cases writes <;> decide

namespace Machine

variable {m : Machine} {source : InputSource} {instruction : Instruction} {effect : Effect}
  {params : Vector Param maxParams}

/-- The instruction at the instruction pointer with the effect that executing it has. -/
def plan (m : Machine) : Except Error (Instruction × Effect) :=
  m.fetch.map fun (instruction, params) => (instruction, Effect.of instruction.opcode params)

/-- Executing is carrying out the plan. -/
theorem execute_eq_plan (m : Machine) (source : InputSource) :
    m.execute source =
      match m.plan with
      | .error error => (.error (m.atIp error), m)
      | .ok (instruction, effect) => m.apply source instruction effect := by
  unfold execute plan
  cases m.fetch <;> rfl

/-- What is planned is what the cell at the instruction pointer decodes to. -/
theorem exists_decode_of_plan (planned : m.plan = .ok (instruction, effect)) :
    ∃ raw params, m.memory.read m.ip = .ok raw ∧ Instruction.decode raw = .ok instruction ∧
      m.paramsOf instruction = .ok params ∧ effect = Effect.of instruction.opcode params := by
  unfold plan at planned
  cases fetched : m.fetch with
  | error error =>
      rw [fetched] at planned
      cases planned
  | ok pair =>
      rw [fetched] at planned
      cases planned
      obtain ⟨raw, found, fetched⟩ := bind_eq_ok.mp fetched
      obtain ⟨decoded, decodes, fetched⟩ := bind_eq_ok.mp fetched
      obtain ⟨params, resolved, fetched⟩ := bind_eq_ok.mp fetched
      cases fetched
      exact ⟨raw, params, found, decodes, resolved, rfl⟩

/-! ## Writing finds its cell -/

theorem resolve_of_paramsOf (found : m.paramsOf instruction = .ok params)
    (index : Fin maxParams) (used : index.val < instruction.opcode.arity) :
    m.memory.resolve (m.ip + 1 + Int64.ofNat index) (instruction.modes.get index)
      m.relativeBase = .ok (params.get index) := by
  obtain ⟨first, firstAt, found⟩ := bind_eq_ok.mp found
  obtain ⟨second, secondAt, found⟩ := bind_eq_ok.mp found
  obtain ⟨third, thirdAt, found⟩ := bind_eq_ok.mp found
  cases found
  have resolved : m.paramAt instruction index = .ok (#v[first, second, third].get index) := by
    match index with
    | 0 => exact firstAt
    | 1 => exact secondAt
    | 2 => exact thirdAt
  simpa only [paramAt, used, ↓reduceIte] using resolved

/-- **Writing stays inside.** The address that a planned effect writes to is a cell of the
memory. -/
theorem exists_target {address : Word} (planned : m.plan = .ok (instruction, effect))
    (writes : effect.target? = some address) :
    ∃ index, m.memory.locate "memory::write" address = .ok index := by
  obtain ⟨raw, params, _, _, found, rfl⟩ := exists_decode_of_plan planned
  rw [Effect.target?_of] at writes
  obtain ⟨target, written, rfl⟩ := Option.map_eq_some_iff.mp writes
  exact Memory.exists_locate_of_resolve
    (resolve_of_paramsOf found target (Opcode.writeParam?_lt_arity written)) _

/-! ## The outcomes of an instruction -/

/-- Looking for input changes nothing but the bridge, and depends on the bridge, the underrun
policy and the instruction pointer alone. -/
theorem nextInput_congr (other : Machine) (bridge : other.bridge = m.bridge)
    (underrun : other.config.underrun = m.config.underrun) (ip : other.ip = m.ip)
    (source : InputSource) :
    other.nextInput source =
      ((m.nextInput source).1, { other with bridge := (m.nextInput source).2.bridge }) := by
  unfold nextInput
  rw [bridge, underrun, ip]
  cases m.bridge.pop with
  | mk popped rest =>
      cases popped with
      | some value => rfl
      | none =>
          cases source with
          | queue | provider => rfl
          | policy =>
              cases answered : rest.ask with
              | mk answer asked =>
                  cases answer with
                  | some value => simp only [answered]
                  | none => cases m.config.underrun <;> simp only [answered]

/-- What executing an instruction comes to: the outcome and the machine that is left. -/
inductive Executes (source : InputSource) (m : Machine) : Except Error Step → Machine → Prop
  | fault {error : Error} (planned : m.plan = .error error) :
      Executes source m (.error (m.atIp error)) m
  | store {instruction : Instruction} {address value : Word} {index : Fin m.memory.cells.size}
      (planned : m.plan = .ok (instruction, .store address value))
      (place : m.memory.locate "memory::write" address = .ok index) :
      Executes source m (.ok .executed)
        ({ m with memory := m.memory.put index value }.advance instruction)
  | read {instruction : Instruction} {address value : Word} {bridge : Bridge}
      {index : Fin m.memory.cells.size} (planned : m.plan = .ok (instruction, .input address))
      (supplied : m.nextInput source = (.ok (some value), { m with bridge }))
      (place : m.memory.locate "memory::write" address = .ok index) :
      Executes source m (.ok .executed)
        ({ m with memory := m.memory.put index value, bridge }.advance instruction)
  | wait {instruction : Instruction} {address : Word} {bridge : Bridge}
      (planned : m.plan = .ok (instruction, .input address))
      (supplied : m.nextInput source = (.ok none, { m with bridge })) :
      Executes source m (.ok .needsInput) { m with bridge }
  | underrun {instruction : Instruction} {address : Word} {bridge : Bridge} {error : Error}
      (planned : m.plan = .ok (instruction, .input address))
      (supplied : m.nextInput source = (.error error, { m with bridge })) :
      Executes source m (.error error) { m with bridge }
  | emit {instruction : Instruction} {value : Word}
      (planned : m.plan = .ok (instruction, .output value)) :
      Executes source m (.ok (.output value))
        ({ m with bridge := m.bridge.emit value }.advance instruction)
  | jump {instruction : Instruction} {target : Word}
      (planned : m.plan = .ok (instruction, .jump target)) :
      Executes source m (.ok .executed) { m with ip := target, steps := m.steps + 1 }
  | adjustBase {instruction : Instruction} {delta : Word}
      (planned : m.plan = .ok (instruction, .adjustBase delta)) :
      Executes source m (.ok .executed)
        ({ m with relativeBase := m.relativeBase + delta }.advance instruction)
  | pass {instruction : Instruction} (planned : m.plan = .ok (instruction, .advance)) :
      Executes source m (.ok .executed) (m.advance instruction)
  | halt {instruction : Instruction} (planned : m.plan = .ok (instruction, .halt)) :
      Executes source m (.ok .halted) { m with steps := m.steps + 1 }

/-- The list of outcomes is complete. -/
theorem executes (m : Machine) (source : InputSource) :
    Executes source m (m.execute source).1 (m.execute source).2 := by
  rw [execute_eq_plan]
  cases planned : m.plan with
  | error error => exact .fault planned
  | ok pair =>
      obtain ⟨instruction, effect⟩ := pair
      cases effect with
      | store address value =>
          obtain ⟨index, place⟩ := exists_target planned rfl
          simp only [apply, store, place]
          exact .store planned place
      | input address =>
          have supplied := nextInput_congr m rfl rfl rfl source
          simp only [apply]
          cases found : (m.nextInput source).1 with
          | error error =>
              rw [found] at supplied
              rw [supplied]
              exact .underrun planned supplied
          | ok answer =>
              rw [found] at supplied
              rw [supplied]
              cases answer with
              | none => exact .wait planned supplied
              | some value =>
                  obtain ⟨index, place⟩ := exists_target planned rfl
                  simp only [store, place]
                  exact .read planned supplied place
      | output value => exact .emit planned
      | jump target => exact .jump planned
      | adjustBase delta => exact .adjustBase planned
      | advance => exact .pass planned
      | halt => exact .halt planned

theorem Executes.execute_eq {outcome : Except Error Step} {next : Machine}
    (executed : Executes source m outcome next) : m.execute source = (outcome, next) := by
  rw [execute_eq_plan]
  cases executed with
  | fault planned => rw [planned]
  | store planned place => simp only [planned, apply, Machine.store, place]
  | read planned supplied place => simp only [planned, apply, supplied, Machine.store, place]
  | wait planned supplied => simp only [planned, apply, supplied]
  | underrun planned supplied => simp only [planned, apply, supplied]
  | emit planned => simp only [planned, apply]
  | jump planned => simp only [planned, apply]
  | adjustBase planned => simp only [planned, apply]
  | pass planned => simp only [planned, apply]
  | halt planned => simp only [planned, apply]

theorem execute_eq_iff {outcome : Except Error Step} {next : Machine} :
    m.execute source = (outcome, next) ↔ Executes source m outcome next := by
  constructor
  · intro same
    have listed := m.executes source
    rwa [same] at listed
  · exact Executes.execute_eq

/-! ## What executing leaves alone -/

variable {outcome : Except Error Step} {next : Machine}

theorem Executes.state_eq (executed : Executes source m outcome next) : next.state = m.state := by
  cases executed <;> rfl

theorem Executes.config_eq (executed : Executes source m outcome next) :
    next.config = m.config := by
  cases executed <;> rfl

/-- How many executed instructions an outcome stands for. -/
def counts : Except Error Step → Nat
  | .ok .needsInput | .error _ => 0
  | .ok _ => 1

/-- An instruction that is executed is counted, the one that halts included. -/
theorem Executes.steps_eq (executed : Executes source m outcome next) :
    next.steps = m.steps + counts outcome := by
  cases executed <;> rfl

theorem Executes.program_eq (executed : Executes source m outcome next) :
    next.program = m.program := by
  cases executed <;> rfl

theorem Executes.capacity_eq (executed : Executes source m outcome next) :
    next.memory.capacity = m.memory.capacity := by
  cases executed with
  | @store _ _ _ index _ _ => exact Array.size_set index.isLt
  | @read _ _ _ _ index _ _ _ => exact Array.size_set index.isLt
  | _ => rfl

end Machine

/-! ## Errors of instructions -/

/-- An error of an instruction that does not say yet where it happened: it stops its machine, and
is not that input was lacking. -/
def Error.IsFault (error : Error) : Prop :=
  error.isFatal = true ∧ error.contextValue? "ip" = none ∧ error.kind ≠ .inputUnderrun

/-- Naming the operation that passes an error on adds a particular behind the others, under
`called` at most. -/
theorem Error.contextValue?_inOperation (error : Error) (operation : String) {key : String}
    (other : key ≠ "called") :
    (error.inOperation operation).contextValue? key = error.contextValue? key := by
  unfold contextValue? inOperation
  dsimp only
  split
  · rfl
  · simp only [List.lookup_append, List.lookup_cons, List.lookup_nil, beq_false_of_ne other,
      Option.or_none]

/-- A result whose error, if it is one, is a fault. -/
def OnlyFaults {α : Type} (result : Except Error α) : Prop :=
  ∀ error, result = .error error → error.IsFault

theorem OnlyFaults.ok {α : Type} (value : α) : OnlyFaults (.ok value : Except Error α) := by
  intro error absurd
  cases absurd

theorem OnlyFaults.error {α : Type} {error : Error} (fault : error.IsFault) :
    OnlyFaults (.error error : Except Error α) := by
  intro other same
  cases same
  exact fault

theorem OnlyFaults.map {α β : Type} {result : Except Error α} (faults : OnlyFaults result)
    (f : α → β) : OnlyFaults (result.map f) := by
  cases result with
  | error error => exact .error (faults error rfl)
  | ok value => exact .ok (f value)

theorem OnlyFaults.bind {α β : Type} {first : Except Error α} {second : α → Except Error β}
    (faults : OnlyFaults first) (others : ∀ value, OnlyFaults (second value)) :
    OnlyFaults (first >>= second) := by
  cases first with
  | error error => exact .error (faults error rfl)
  | ok value => exact others value

theorem Memory.onlyFaults_locate (memory : Memory) {operation : String} (address : Word) :
    OnlyFaults (memory.locate operation address) := by
  unfold locate
  split
  · exact .error ⟨rfl, rfl, ErrorKind.noConfusion⟩
  · split
    · exact .ok _
    · exact .error ⟨rfl, rfl, ErrorKind.noConfusion⟩

theorem Memory.onlyFaults_read (memory : Memory) (address : Word) :
    OnlyFaults (memory.read address) :=
  (memory.onlyFaults_locate address).map _

theorem Memory.onlyFaults_resolve (memory : Memory) (slot : Word) (mode : Mode) (base : Word) :
    OnlyFaults (memory.resolve slot mode base) := by
  apply (memory.onlyFaults_read slot).bind
  intro operand
  apply (memory.onlyFaults_read _).bind
  intro value
  exact .ok _

namespace Instruction

theorem onlyFaults_modeAt (raw : Word) (opcode : Opcode) (param : Fin maxParams) :
    OnlyFaults (modeAt raw opcode param) := by
  unfold modeAt
  split
  · split
    · exact .ok _
    · exact .error ⟨rfl, rfl, ErrorKind.noConfusion⟩
  · exact .ok _

theorem onlyFaults_modesOf (raw : Word) (opcode : Opcode) :
    OnlyFaults (modesOf raw opcode) := by
  apply (onlyFaults_modeAt raw opcode firstParam).bind
  intro first
  apply (onlyFaults_modeAt raw opcode secondParam).bind
  intro second
  apply (onlyFaults_modeAt raw opcode thirdParam).bind
  intro third
  exact .ok _

theorem onlyFaults_decode (raw : Word) : OnlyFaults (decode raw) := by
  unfold decode
  split
  · exact .error ⟨rfl, rfl, ErrorKind.noConfusion⟩
  · apply (onlyFaults_modesOf raw _).bind
    intro modes
    split
    · exact .error ⟨rfl, rfl, ErrorKind.noConfusion⟩
    · exact .ok _

end Instruction

namespace Machine

theorem onlyFaults_paramAt (m : Machine) (instruction : Instruction) (index : Fin maxParams) :
    OnlyFaults (m.paramAt instruction index) := by
  unfold paramAt
  split
  · exact m.memory.onlyFaults_resolve _ _ _
  · exact .ok _

theorem onlyFaults_paramsOf (m : Machine) (instruction : Instruction) :
    OnlyFaults (m.paramsOf instruction) := by
  apply (m.onlyFaults_paramAt instruction firstParam).bind
  intro first
  apply (m.onlyFaults_paramAt instruction secondParam).bind
  intro second
  apply (m.onlyFaults_paramAt instruction thirdParam).bind
  intro third
  exact .ok _

theorem onlyFaults_plan (m : Machine) : OnlyFaults m.plan := by
  apply OnlyFaults.map
  apply (m.memory.onlyFaults_read m.ip).bind
  intro raw
  apply (Instruction.onlyFaults_decode raw).bind
  intro instruction
  apply (m.onlyFaults_paramsOf instruction).bind
  intro params
  exact .ok _

theorem eq_inputUnderrun_of_nextInput {m next : Machine} {source : InputSource} {error : Error}
    (failed : m.nextInput source = (.error error, next)) : error = Error.inputUnderrun m.ip := by
  unfold nextInput at failed
  split at failed
  · cases failed
  · cases source with
    | queue | provider => cases failed
    | policy =>
        dsimp only at failed
        split at failed
        · cases failed
        · split at failed
          · cases failed
          · cases failed
            rfl

/-- An error of an instruction stops its machine and says where the machine stands. -/
theorem Executes.error_ip {m next : Machine} {source : InputSource} {error : Error}
    (executed : Executes source m (.error error) next) :
    error.isFatal = true ∧ error.contextValue? "ip" = some next.ip.text := by
  cases executed with
  | @fault error planned =>
      obtain ⟨fatal, unplaced, _⟩ := m.onlyFaults_plan error planned
      refine ⟨fatal, ?_⟩
      unfold Error.contextValue? at unplaced
      simp only [Error.contextValue?, atIp, Error.withContext, List.lookup_append, unplaced]
      rfl
  | underrun planned supplied =>
      rw [eq_inputUnderrun_of_nextInput supplied]
      exact ⟨rfl, rfl⟩

/-- An instruction that may turn to the queue alone waits where it lacks input. -/
theorem Executes.kind_of_queue {m next : Machine} {error : Error}
    (executed : Executes .queue m (.error error) next) : error.kind ≠ .inputUnderrun := by
  cases executed with
  | @fault error planned => exact (m.onlyFaults_plan error planned).2.2
  | underrun planned supplied =>
      unfold nextInput at supplied
      split at supplied <;> cases supplied

end Machine

end Intcode
