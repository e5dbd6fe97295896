import Intcode.Proofs.ExactAddresses
import Intcode.Proofs.InstructionCells
import Intcode.Proofs.Resetting
import Intcode.Proofs.SessionHistory

/-! # Execution under guards

To execute an instruction, a machine counts cells onwards from the instruction pointer, looks up
entries of the rows of modes and of parameters, and writes a cell. None of this is checked for its
own sake: a jump can leave any word in the instruction pointer, and the sums are formed all the
same. `Machine.guardedExecute` executes with a guard before each of these, in the same order. A sum
has to lead from an address of memory to another one or to the end of memory, an entry has to be
one that the operation has, and a write has to find its cell. Where a guard is breached, there is
neither a result nor an error of the program.

No guard is ever breached (`Machine.guardedExecute_eq`). Having read the cell at the instruction
pointer, there is room for one cell, and each parameter that is resolved makes room for one more
(`Machine.Room.behind_paramAt`), so that the next sum is formed only where it stays in memory. -/

namespace Intcode

/-- What a guard stops. -/
inductive Breach
  /-- A sum that does not count from an address of memory up to its end. -/
  | sum (left right : Word)
  /-- An entry that a row does not have. -/
  | entry (index : Nat)
  /-- More entries than a row has. -/
  | entries (count : Nat)
  /-- A write where there is no cell. -/
  | write (address : Word)
  deriving DecidableEq, Repr

/-- A result that may be an error of the program, unless a guard is breached. -/
abbrev Guarded (α : Type) :=
  ExceptT Error (Except Breach) α

namespace Guarded

variable {α β : Type}

/-- A result that needs no guard. -/
def free (result : Except Error α) : Guarded α :=
  ExceptT.mk (.ok result)

/-- What a guard lets through. -/
def checked (check : Except Breach α) : Guarded α :=
  ExceptT.lift check

/-- An entry of a row. -/
def entry (row : List α) (index : Nat) : Except Breach α :=
  match row[index]? with
  | some found => .ok found
  | none => .error (.entry index)

/-- The first entries of a row. -/
def entries (row : List α) (count : Nat) : Except Breach (List α) :=
  if count ≤ row.length then .ok (row.take count) else .error (.entries count)

/-- No guard is breached, and the result is what it would be without guards. -/
def Passes (guarded : Guarded α) (result : Except Error α) : Prop :=
  guarded.run = .ok result

theorem passes_free (result : Except Error α) : (free result).Passes result :=
  rfl

theorem passes_pure (value : α) : (pure value : Guarded α).Passes (.ok value) :=
  rfl

theorem Passes.bind {first : Guarded α} {second : α → Guarded β} {result : Except Error α}
    {further : α → Except Error β} (passes : first.Passes result)
    (rest : ∀ value, result = .ok value → (second value).Passes (further value)) :
    (first >>= second).Passes (result >>= further) := by
  unfold Passes at passes ⊢
  rw [ExceptT.run_bind, passes]
  cases result with
  | error error => rfl
  | ok value => exact rest value rfl

/-- The same where the result without guards holds more than is compared. -/
theorem Passes.bind_map {γ : Type} {first : Guarded α} {second : α → Guarded γ}
    {result : Except Error α} {further : α → Except Error β} {view : β → γ}
    (passes : first.Passes result)
    (rest : ∀ value, result = .ok value → (second value).Passes ((further value).map view)) :
    (first >>= second).Passes ((result >>= further).map view) := by
  have inner : (result >>= further).map view =
      result >>= fun value => (further value).map view := by
    cases result <;> rfl
  rw [inner]
  exact passes.bind rest

theorem passes_checked_bind {check : Except Breach α} {value : α} {second : α → Guarded β}
    {result : Except Error β} (held : check = .ok value) (rest : (second value).Passes result) :
    (checked check >>= second).Passes result := by
  rw [held]
  exact rest

/-- The first entries of a row are found where they are. -/
theorem entry_take {size count : Nat} (row : Vector α size) {index : Fin size}
    (used : index.val < count) : entry (row.toList.take count) index = .ok (row.get index) := by
  have there : (row.toList.take count)[index.val]? = some (row.get index) := by
    rw [List.getElem?_take_of_lt used, Vector.getElem?_toList]
    exact Vector.getElem?_eq_getElem index.isLt
  rw [entry, there]

end Guarded

open Guarded

namespace Instruction

/-- Decodes a cell, looking up the mode of the parameter to be written among those in use. -/
def guardedDecode (raw : Word) : Guarded Instruction :=
  match Opcode.ofCode? (raw % 100) with
  | none => free (.error (Error.invalidOpcode raw))
  | some opcode => do
      let modes ← free (modesOf raw opcode)
      match opcode.writeParam? with
      | none => return { raw, opcode, modes }
      | some target =>
          let mode ← checked (entry (modes.toList.take opcode.arity) target)
          if mode = .immediate then free (.error (Error.immediateWrite raw target))
          else return { raw, opcode, modes }

theorem passes_guardedDecode (raw : Word) : (guardedDecode raw).Passes (decode raw) := by
  unfold guardedDecode decode
  cases Opcode.ofCode? (raw % 100) with
  | none => exact passes_free _
  | some opcode =>
      refine (passes_free _).bind fun modes _ => ?_
      unfold immediateTarget?
      cases writes : opcode.writeParam? with
      | none => exact passes_pure _
      | some target =>
          have used : target.val < opcode.arity := Opcode.writeParam?_lt_arity writes
          refine passes_checked_bind (entry_take modes used) ?_
          have same : modes[target] = modes.get target := rfl
          by_cases immediate : modes.get target = .immediate
          · simp only [immediate, same, ↓reduceIte, Option.filter_some, decide_true]
            exact passes_free _
          · simp only [immediate, same, ↓reduceIte, Option.filter_some, decide_false]
            exact passes_pure _

/-- The parameters that the operation has. -/
def inUse (instruction : Instruction) (params : Vector Param maxParams) : List Param :=
  params.toList.take instruction.opcode.arity

end Instruction

namespace Effect

/-- The effect of an operation, looking up the parameters in a row. -/
def guardedOf (opcode : Opcode) (params : List Param) : Except Breach Effect := do
  match opcode with
  | .add =>
      return .store (← entry params 2).address
        ((← entry params 0).value + (← entry params 1).value)
  | .multiply =>
      return .store (← entry params 2).address
        ((← entry params 0).value * (← entry params 1).value)
  | .input => return .input (← entry params 0).address
  | .output => return .output (← entry params 0).value
  | .jumpIfTrue => return jumpWhen ((← entry params 0).value != 0) (← entry params 1).value
  | .jumpIfFalse => return jumpWhen ((← entry params 0).value == 0) (← entry params 1).value
  | .lessThan =>
      return .store (← entry params 2).address
        (truth ((← entry params 0).value < (← entry params 1).value))
  | .equals =>
      return .store (← entry params 2).address
        (truth ((← entry params 0).value == (← entry params 1).value))
  | .adjustBase => return .adjustBase (← entry params 0).value
  | .halt => return .halt

/-- An effect needs no parameter past the arity. -/
theorem guardedOf_eq (opcode : Opcode) (params : Vector Param maxParams) :
    guardedOf opcode (params.toList.take opcode.arity) = .ok (of opcode params) := by
  obtain ⟨⟨row⟩, size⟩ := params
  obtain ⟨first, second, third, rfl⟩ := List.length_eq_three.mp size
  cases opcode <;> rfl

end Effect

namespace Machine

variable {m next : Machine} {source : InputSource} {instruction : Instruction} {effect : Effect}
  {params : Vector Param maxParams} {param : Param} {left right sum : Word} {count : Nat}

/-! ## The guarded instruction -/

/-- A sum, which has to count from an address of memory up to the end of memory at most. -/
def guardedSum (m : Machine) (left right : Word) : Except Breach Word :=
  if 0 ≤ left.toInt ∧ left.toInt + right.toInt ≤ m.memory.capacity then .ok (left + right)
  else .error (.sum left right)

def guardedParamAt (m : Machine) (instruction : Instruction) (index : Fin maxParams) :
    Guarded Param :=
  if index.val < instruction.opcode.arity then do
    let first ← checked (m.guardedSum m.ip 1)
    let slot ← checked (m.guardedSum first (Int64.ofNat index))
    let mode ← checked (entry instruction.paramModes index)
    free (m.memory.resolve slot mode m.relativeBase)
  else return default

/-- The parameters of an instruction, no more of them than its operation has. -/
def guardedParamsOf (m : Machine) (instruction : Instruction) : Guarded (List Param) := do
  let first ← m.guardedParamAt instruction firstParam
  let second ← m.guardedParamAt instruction secondParam
  let third ← m.guardedParamAt instruction thirdParam
  checked (entries [first, second, third] instruction.opcode.arity)

def guardedFetch (m : Machine) : Guarded (Instruction × List Param) := do
  let raw ← free (m.memory.read m.ip)
  let instruction ← Instruction.guardedDecode raw
  let params ← m.guardedParamsOf instruction
  return (instruction, params)

def guardedAdvance (m : Machine) (instruction : Instruction) : Except Breach Machine := do
  let ip ← m.guardedSum m.ip (Int64.ofNat instruction.width)
  return { m with ip, steps := m.steps + 1 }

def guardedStore (m : Machine) (instruction : Instruction) (address value : Word) :
    Except Breach (Except Error Step × Machine) :=
  match m.memory.locate "memory::write" address with
  | .error _ => .error (.write address)
  | .ok index => do
      return (.ok .executed,
        ← { m with memory := m.memory.put index value }.guardedAdvance instruction)

def guardedApply (m : Machine) (source : InputSource) (instruction : Instruction) :
    Effect → Except Breach (Except Error Step × Machine)
  | .store address value => m.guardedStore instruction address value
  | .input address =>
      match m.nextInput source with
      | (.error error, m) => return (.error error, m)
      | (.ok none, m) => return (.ok .needsInput, m)
      | (.ok (some value), m) => m.guardedStore instruction address value
  | .output value => do
      return (.ok (.output value),
        ← { m with bridge := m.bridge.emit value }.guardedAdvance instruction)
  | .jump target => return (.ok .executed, { m with ip := target, steps := m.steps + 1 })
  | .adjustBase delta => do
      return (.ok .executed,
        ← { m with relativeBase := m.relativeBase + delta }.guardedAdvance instruction)
  | .advance => do return (.ok .executed, ← m.guardedAdvance instruction)
  | .halt => return (.ok .halted, { m with steps := m.steps + 1 })

/-- Executes the instruction at the instruction pointer under guards. -/
def guardedExecute (m : Machine) (source : InputSource) :
    Except Breach (Except Error Step × Machine) := do
  match ← m.guardedFetch.run with
  | .error error => return (.error (m.atIp error), m)
  | .ok (instruction, params) =>
      let effect ← Effect.guardedOf instruction.opcode params
      m.guardedApply source instruction effect

/-! ## Room -/

/-- From the instruction pointer on there are as many cells. -/
structure Room (m : Machine) (count : Nat) : Prop where
  nonneg : 0 ≤ m.ip.toInt
  inside : m.ip.toInt + count ≤ m.memory.capacity

theorem room_of_read {raw : Word} (found : m.memory.read m.ip = .ok raw) : m.Room 1 := by
  obtain ⟨nonneg, below⟩ := (Memory.read_eq_ok_iff.mp found).1
  exact ⟨nonneg, below⟩

/-- Nothing has been resolved before the first parameter. -/
theorem Room.before_first (room : m.Room 1) (arity : Nat) :
    m.Room (1 + min firstParam.val arity) := by
  have nothing : min firstParam.val arity = 0 := Nat.zero_min arity
  rwa [nothing]

theorem guardedSum_eq_ok_iff : m.guardedSum left right = .ok sum ↔
    (0 ≤ left.toInt ∧ left.toInt + right.toInt ≤ m.memory.capacity) ∧ sum = left + right := by
  unfold guardedSum
  split
  · rename_i held
    rw [Except.ok.injEq, and_iff_right held, eq_comm]
  · rename_i breached
    exact iff_of_false nofun fun passed => breached passed.1

section

variable (small : m.memory.capacity ≤ Word.greatest)

include small

/-- A sum that its guard lets through is the sum of the integers. -/
theorem toInt_of_guardedSum (passed : m.guardedSum left right = .ok sum) :
    sum.toInt = left.toInt + right.toInt := by
  obtain ⟨⟨nonneg, inside⟩, rfl⟩ := guardedSum_eq_ok_iff.mp passed
  have upper : Word.greatest = 2 ^ 63 - 1 := rfl
  have lower : -2 ^ 63 ≤ right.toInt := right.le_toInt
  rw [Int64.toInt_add]
  exact Int.bmod_eq_of_le (by omega) (by omega)

/-- Where there is room for cells, they can be counted. -/
theorem guardedSum_ofNat (few : count ≤ 4) (nonneg : 0 ≤ left.toInt)
    (inside : left.toInt + count ≤ m.memory.capacity) :
    m.guardedSum left (Int64.ofNat count) = .ok (left + Int64.ofNat count) ∧
      (left + Int64.ofNat count).toInt = left.toInt + count := by
  have exact : (Int64.ofNat count).toInt = count := Int64.toInt_ofNat_of_lt (by omega)
  have passed : m.guardedSum left (Int64.ofNat count) = .ok (left + Int64.ofNat count) := by
    rw [guardedSum_eq_ok_iff, exact]
    exact ⟨⟨nonneg, inside⟩, rfl⟩
  refine ⟨passed, ?_⟩
  rw [toInt_of_guardedSum small passed, exact]

/-- With room for the instruction's cell and the parameters before it, the cell of a parameter is
counted to. -/
theorem Room.slot {index : Fin maxParams} (room : m.Room (1 + index)) :
    m.guardedSum m.ip 1 = .ok (m.ip + 1) ∧
      m.guardedSum (m.ip + 1) (Int64.ofNat index) = .ok (m.ip + 1 + Int64.ofNat index) ∧
      (m.ip + 1 + Int64.ofNat index).toInt = m.ip.toInt + (1 + index.val : Nat) := by
  have nonneg := room.nonneg
  have inside := room.inside
  have few : index.val < 3 := index.isLt
  have begun : m.ip.toInt + (1 : Nat) ≤ m.memory.capacity := by omega
  obtain ⟨first, begins⟩ : m.guardedSum m.ip 1 = .ok (m.ip + 1) ∧
      (m.ip + 1).toInt = m.ip.toInt + (1 : Nat) :=
    guardedSum_ofNat small (by decide) nonneg begun
  obtain ⟨second, counted⟩ : m.guardedSum (m.ip + 1) (Int64.ofNat index) =
        .ok (m.ip + 1 + Int64.ofNat index) ∧
      (m.ip + 1 + Int64.ofNat index).toInt = (m.ip + 1).toInt + index.val :=
    guardedSum_ofNat small (by omega) (by omega) (by omega)
  refine ⟨first, second, ?_⟩
  rw [counted, begins]
  omega

theorem Room.passes_guardedParamAt {index : Fin maxParams}
    (room : m.Room (1 + min index.val instruction.opcode.arity)) :
    (m.guardedParamAt instruction index).Passes (m.paramAt instruction index) := by
  unfold guardedParamAt paramAt
  by_cases used : index.val < instruction.opcode.arity
  · rw [if_pos used, if_pos used]
    rw [Nat.min_eq_left (Nat.le_of_lt used)] at room
    obtain ⟨first, second, _⟩ := room.slot small
    exact passes_checked_bind first (passes_checked_bind second
      (passes_checked_bind (entry_take instruction.modes used) (passes_free _)))
  · rw [if_neg used, if_neg used]
    exact passes_pure _

/-- A parameter that is resolved has its cell in memory, which makes room for one more. A blank one
has none and asks for none. -/
theorem Room.behind_paramAt {index : Fin maxParams}
    (room : m.Room (1 + min index.val instruction.opcode.arity))
    (found : m.paramAt instruction index = .ok param) :
    m.Room (1 + min (index.val + 1) instruction.opcode.arity) := by
  by_cases used : index.val < instruction.opcode.arity
  · rw [Nat.min_eq_left (Nat.le_of_lt used)] at room
    rw [paramAt, if_pos used] at found
    obtain ⟨operand, held, _⟩ := (Memory.resolve_eq_ok_iff small).mp found
    obtain ⟨_, _, counted⟩ := room.slot small
    have below := held.1.2
    refine ⟨room.nonneg, ?_⟩
    omega
  · have same : min (index.val + 1) instruction.opcode.arity =
        min index.val instruction.opcode.arity := by omega
    rwa [same]

theorem Room.passes_guardedParamsOf (room : m.Room 1) (instruction : Instruction) :
    (m.guardedParamsOf instruction).Passes ((m.paramsOf instruction).map instruction.inUse) := by
  have opens := room.before_first instruction.opcode.arity
  refine (opens.passes_guardedParamAt small).bind_map fun first firstAt => ?_
  have behindFirst := opens.behind_paramAt small firstAt
  refine (behindFirst.passes_guardedParamAt small).bind_map fun second secondAt => ?_
  have behindSecond := behindFirst.behind_paramAt small secondAt
  refine (behindSecond.passes_guardedParamAt small).bind_map fun third _ => ?_
  have enough : instruction.opcode.arity ≤ [first, second, third].length :=
    instruction.opcode.arity_le
  rw [entries, if_pos enough]
  rfl

/-- Once all parameters are resolved there is room for the instruction. -/
theorem Room.behind_paramsOf (room : m.Room 1) (found : m.paramsOf instruction = .ok params) :
    m.Room instruction.width := by
  obtain ⟨first, firstAt, found⟩ := bind_eq_ok.mp found
  obtain ⟨second, secondAt, found⟩ := bind_eq_ok.mp found
  obtain ⟨third, thirdAt, _⟩ := bind_eq_ok.mp found
  have opens := room.before_first instruction.opcode.arity
  have behindFirst := opens.behind_paramAt small firstAt
  have behindSecond := behindFirst.behind_paramAt small secondAt
  have behindThird := behindSecond.behind_paramAt small thirdAt
  have used : min (thirdParam.val + 1) instruction.opcode.arity = instruction.opcode.arity :=
    Nat.min_eq_right instruction.opcode.arity_le
  rwa [used] at behindThird

/-! ## No guard is breached -/

theorem passes_guardedFetch : m.guardedFetch.Passes
    (m.fetch.map fun (instruction, params) => (instruction, instruction.inUse params)) := by
  refine (passes_free _).bind_map fun raw found => ?_
  refine (Instruction.passes_guardedDecode raw).bind_map fun instruction _ => ?_
  have used : ((m.paramsOf instruction >>= fun params => pure (instruction, params)).map
      fun (instruction, params) => (instruction, instruction.inUse params)) =
        (m.paramsOf instruction).map instruction.inUse >>= fun used =>
          pure (instruction, used) := by
    cases m.paramsOf instruction <;> rfl
  rw [used]
  exact ((room_of_read found).passes_guardedParamsOf small instruction).bind fun used _ =>
    passes_pure _

/-- What is planned has room. -/
theorem room_of_plan (planned : m.plan = .ok (instruction, effect)) :
    m.Room instruction.width := by
  obtain ⟨raw, params, found, _, resolved, _⟩ := exists_decode_of_plan planned
  exact (room_of_read found).behind_paramsOf small resolved

/-- Going on behind an instruction breaches no guard where there is room for it, whatever else has
changed by then. -/
theorem Room.guardedAdvance_eq (room : m.Room instruction.width) (ip : next.ip = m.ip)
    (capacity : next.memory.capacity = m.memory.capacity) :
    next.guardedAdvance instruction = .ok (next.advance instruction) := by
  rw [← capacity] at small
  have nonneg : 0 ≤ next.ip.toInt := ip ▸ room.nonneg
  have inside : next.ip.toInt + instruction.width ≤ next.memory.capacity := by
    rw [ip, capacity]
    exact room.inside
  rw [guardedAdvance, (guardedSum_ofNat small instruction.width_le nonneg inside).1]
  rfl

/-- Storing breaches no guard, be it a value that was computed or one that was supplied. -/
theorem Room.guardedStore_eq (room : m.Room instruction.width) (bridge : Bridge) {address : Word}
    {index : Fin m.memory.cells.size} (place : m.memory.locate "memory::write" address = .ok index)
    (value : Word) :
    { m with bridge }.guardedStore instruction address value =
      .ok ({ m with bridge }.store instruction address value) := by
  have stored : { m with memory := m.memory.put index value, bridge }.guardedAdvance instruction =
      .ok _ := room.guardedAdvance_eq small rfl (Array.size_set index.isLt)
  simp only [guardedStore, store, place]
  rw [stored]
  rfl

/-- Carrying out what is planned breaches no guard. -/
theorem guardedApply_eq (planned : m.plan = .ok (instruction, effect)) (source : InputSource) :
    m.guardedApply source instruction effect = .ok (m.apply source instruction effect) := by
  have room := room_of_plan small planned
  cases effect with
  | store address value =>
      obtain ⟨index, place⟩ := exists_target planned rfl
      exact room.guardedStore_eq small m.bridge place value
  | input address =>
      obtain ⟨index, place⟩ := exists_target planned rfl
      -- Looking for input leaves the cell in place, since only the bridge changes.
      have supplied := nextInput_congr m rfl rfl rfl source
      simp only [guardedApply, apply]
      cases found : (m.nextInput source).1 with
      | error error =>
          rw [found] at supplied
          rw [supplied]
          rfl
      | ok answer =>
          rw [found] at supplied
          rw [supplied]
          cases answer with
          | none => rfl
          | some value =>
              exact room.guardedStore_eq small (m.nextInput source).2.bridge place value
  | output value =>
      have emitted : { m with bridge := m.bridge.emit value }.guardedAdvance instruction = .ok _ :=
        room.guardedAdvance_eq small rfl rfl
      rw [guardedApply, emitted]
      rfl
  | adjustBase delta =>
      have moved : { m with relativeBase := m.relativeBase + delta }.guardedAdvance instruction =
          .ok _ := room.guardedAdvance_eq small rfl rfl
      rw [guardedApply, moved]
      rfl
  | advance =>
      rw [guardedApply, room.guardedAdvance_eq small rfl rfl]
      rfl
  | jump target => rfl
  | halt => rfl

/-- **Guards are idle.** Under guards, an instruction does what it does without them. -/
theorem guardedExecute_eq (source : InputSource) :
    m.guardedExecute source = .ok (m.execute source) := by
  have passes : m.guardedFetch.run = .ok _ := passes_guardedFetch small
  rw [guardedExecute, passes, execute]
  cases fetched : m.fetch with
  | error error => rfl
  | ok pair =>
      obtain ⟨instruction, params⟩ := pair
      have planned : m.plan = .ok (instruction, Effect.of instruction.opcode params) := by
        rw [plan, fetched]
        rfl
      have formed : Effect.guardedOf instruction.opcode (instruction.inUse params) =
          .ok (Effect.of instruction.opcode params) := Effect.guardedOf_eq _ params
      simp only [bind, Except.bind, Except.map, formed]
      exact guardedApply_eq small planned source

end

/-- Executing breaches no guard and does the same as without them, and the sums that are formed are
those of the integers. -/
structure KeepsGuards (m : Machine) : Prop where
  idle : ∀ source, m.guardedExecute source = .ok (m.execute source)
  exact : ∀ left right sum, m.guardedSum left right = .ok sum →
    sum.toInt = left.toInt + right.toInt ∧ 0 ≤ left.toInt ∧ sum.toInt ≤ m.memory.capacity

theorem keepsGuards (small : m.memory.capacity ≤ Word.greatest) : m.KeepsGuards where
  idle := guardedExecute_eq small
  exact left right sum passed := by
    obtain ⟨nonneg, inside⟩ := (guardedSum_eq_ok_iff.mp passed).1
    have same := toInt_of_guardedSum small passed
    exact ⟨same, nonneg, same ▸ inside⟩

/-- **Instructions keep the guards.** Let a program and its scratch cells be no more than words can
address. Then, whatever is done to a fresh machine over it, and whatever words its instruction
pointer and relative base come to hold by that, executing an instruction breaches no guard and does
what it does without them. So it is before every change that is made, in the middle of a run as
well, and on the machine that is left. -/
theorem instructions_keep_guards (program : Program) (config : Config)
    (small : program.size + config.scratchCells.toNat ≤ Word.greatest) (fuel : Nat)
    (operations : List Operation) :
    (∀ change ∈ (ofProgram program config).history fuel operations, change.before.KeepsGuards) ∧
    ∀ answers final, (ofProgram program config).performAll fuel operations = some (answers, final) →
      final.KeepsGuards := by
  have fresh := builtFrom_ofProgram program config
  have keeps {m : Machine} (built : m.BuiltFrom program config) : m.KeepsGuards := by
    refine keepsGuards ?_
    rw [built.room]
    exact_mod_cast small
  refine ⟨fun change among => keeps ?_, fun answers final performed => keeps ?_⟩
  · exact history_preserves (P := (BuiltFrom program config ·)) BuiltFrom.executed
      (fun state built => built.inState state) (fun bridge built => built.bridged bridge)
      (fun index value built => built.patched index value) (fun built => built.reset) fresh
      change among
  · exact fresh.performAll performed

/-- A program that moves the relative base as far as it goes and jumps as far as it goes. -/
def farJump : Program :=
  ⟨[109, 9223372036854775807, 1105, 1, 9223372036854775807]⟩

/-- The third step is made at the greatest word, behind which no cell is counted. -/
theorem farJump_keeps_guards :
    farJump.size + ({ scratchCells := 2 } : Config).scratchCells.toNat ≤ Word.greatest ∧
    ∃ change ∈ (ofProgram farJump { scratchCells := 2 }).history 0 [.step, .step, .step],
      change.cause = .executing .provider ∧ change.before.ip = 9223372036854775807 ∧
      change.before.relativeBase = 9223372036854775807 ∧
      change.before.guardedSum change.before.ip 1 = .error (.sum 9223372036854775807 1) ∧
      change.before.KeepsGuards := by
  have small : farJump.size + ({ scratchCells := 2 } : Config).scratchCells.toNat ≤
      Word.greatest := by decide
  have keep := (instructions_keep_guards farJump { scratchCells := 2 } small 0
    [.step, .step, .step]).1
  let row := (ofProgram farJump { scratchCells := 2 }).history 0 [.step, .step, .step]
  have seventh : row[7]?.map (fun change =>
      (change.cause, change.before.ip, change.before.relativeBase, change.before.memory.capacity)) =
        some (.executing .provider, 9223372036854775807, 9223372036854775807, 7) := by
    decide +kernel
  obtain ⟨change, there, same⟩ := Option.map_eq_some_iff.mp seventh
  simp only [Prod.mk.injEq] at same
  obtain ⟨attempt, ip, base, capacity⟩ := same
  have among := List.mem_of_getElem? there
  refine ⟨small, change, among, attempt, ip, base, ?_, keep change among⟩
  rw [guardedSum, ip, capacity]
  rfl

end Machine

end Intcode
