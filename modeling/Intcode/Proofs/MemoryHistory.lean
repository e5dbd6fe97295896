import Intcode.Proofs.ExactAddresses
import Intcode.Proofs.Snapshots

/-! # Histories of memory

Memory is a map from the addresses below its capacity. What stands at an address is what was written
there last since memory was reset, and what the program has there if nothing was: zero behind the
program's end (`Memory.valueAt`). A write to any other address fails and leaves memory as it was, so
only the updates that succeed count (`Memory.landed`).

One update keeps this (`Memory.Remembers.update`), hence any row of updates
(`Memory.Remembers.updateAll`). The cells that are used are the fewest that are no fewer than those
of the program and that have only zeros behind them (`Memory.length_used_le`). -/

namespace Intcode.Memory

/-- What is done to a memory. -/
inductive Update
  | write (address value : Word)
  | reset
  deriving DecidableEq, Repr

/-- The value that an update writes to an address. -/
def Update.valueFor? (address : Word) : Update → Option Word
  | .write other value => if other = address then some value else none
  | .reset => none

/-- What an update comes to. A write that fails leaves the memory. -/
def update (memory : Memory) : Update → Except Error Unit × Memory
  | .write address value =>
      match memory.write address value with
      | .error error => (.error error, memory)
      | .ok next => (.ok (), next)
  | .reset => (.ok (), memory.reset)

/-- The memory behind updates that are made one after the other. -/
def updateAll (memory : Memory) (updates : List Update) : Memory :=
  updates.foldl (fun memory update => (memory.update update).2) memory

/-- The updates that succeed when they are made one after the other. -/
def landed : Memory → List Update → List Update
  | _, [] => []
  | memory, update :: rest =>
      match memory.update update with
      | (.error _, next) => next.landed rest
      | (.ok (), next) => update :: next.landed rest

/-- The value that was written last to an address since the last reset. -/
def lastWritten? (address : Word) (updates : List Update) : Option Word :=
  (updates.reverse.takeWhile (· ≠ .reset)).findSome? (·.valueFor? address)

/-- The value at an address: what was written last, or what the program has there, or zero. -/
def valueAt (program : Program) (updates : List Update) (address : Word) : Word :=
  (lastWritten? address updates).getD (program.cells[address.toInt.toNat]?.getD 0)

/-- A memory has the capacity and the program it was made with, and has at every address the value
that some updates put there. -/
structure Remembers (program : Program) (scratch : Nat) (updates : List Update) (memory : Memory) :
    Prop where
  capacity_eq : memory.capacity = program.size + scratch
  program_eq : memory.program = program
  read_iff : ∀ address value, memory.read address = .ok value ↔
    memory.Inside address.toInt ∧ value = valueAt program updates address

/-- A row of first cells that is no shorter than the program, and with zeros behind it is all cells.
-/
structure Trims (memory : Memory) (row : List Word) : Prop where
  first : row <+: memory.cells.toList
  least : memory.program.size ≤ row.length
  padded : row ++ List.replicate (memory.capacity - row.length) 0 = memory.cells.toList

variable {program : Program} {scratch : Nat} {memory next : Memory} {past updates : List Update}
  {address value : Word} {operation : String} {error : Error} {row : List Word}

/-! ## What was written last -/

theorem lastWritten?_reset (address : Word) (past : List Update) :
    lastWritten? address (past ++ [.reset]) = none := by
  rw [lastWritten?, List.reverse_append, List.reverse_singleton, List.singleton_append]
  rfl

theorem lastWritten?_write (address other value : Word) (past : List Update) :
    lastWritten? address (past ++ [.write other value]) =
      if other = address then some value else lastWritten? address past := by
  rw [lastWritten?, List.reverse_append, List.reverse_singleton, List.singleton_append,
    List.takeWhile_cons_of_pos, List.findSome?_cons, Update.valueFor?]
  · by_cases same : other = address
    · rw [if_pos same, if_pos same]
    · rw [if_neg same, if_neg same]
      rfl
  · rfl

/-! ## Writes -/

theorem update_write_of_locate {index : Fin memory.cells.size}
    (found : memory.locate "memory::write" address = .ok index) (value : Word) :
    memory.update (.write address value) = (.ok (), memory.put index value) := by
  rw [update, write, found]
  rfl

theorem update_write_of_refused (refused : memory.locate "memory::write" address = .error error)
    (value : Word) : memory.update (.write address value) = (.error error, memory) := by
  rw [update, write, refused]
  rfl

/-- A write fails just outside, and leaves the memory. -/
theorem update_write_eq_error_iff :
    memory.update (.write address value) = (.error error, next) ↔
      ¬ memory.Inside address.toInt ∧ error = memory.refusal "memory::write" address ∧
        next = memory := by
  rw [← and_assoc, ← locate_eq_error_iff]
  cases located : memory.locate "memory::write" address with
  | ok index =>
      rw [update_write_of_locate located]
      exact iff_of_false nofun nofun
  | error other =>
      rw [update_write_of_refused located]
      constructor
      · intro same
        cases same
        exact ⟨rfl, rfl⟩
      · rintro ⟨same, rfl⟩
        cases same
        rfl

/-! ## Rows of updates -/

theorem getElem?_image {capacity place : Nat} (inside : place < capacity) :
    (image program capacity)[place]? = some (program.cells[place]?.getD 0) := by
  unfold image
  by_cases within : place < program.size
  · have among : place < program.cells.toArray.size := within
    rw [Array.getElem?_append_left among, List.getElem?_toArray]
    rw [List.getElem?_eq_getElem within, Option.getD_some]
  · have beyond : program.cells.toArray.size ≤ place := Nat.le_of_not_lt within
    have room : place - program.cells.toArray.size < capacity - program.size := by
      have size : program.cells.toArray.size = program.size := rfl
      omega
    rw [Array.getElem?_append_right beyond, Array.getElem?_replicate, if_pos room,
      List.getElem?_eq_none (Nat.le_of_not_lt within), Option.getD_none]

/-- A memory that has the cells of a program and zeros behind them has its values where nothing was
written. -/
theorem remembers_of_image (program_eq : memory.program = program)
    (capacity_eq : memory.capacity = program.size + scratch)
    (cells_eq : memory.cells = image program memory.capacity)
    (nothing : ∀ address, lastWritten? address updates = none) :
    Remembers program scratch updates memory where
  capacity_eq
  program_eq
  read_iff address value := by
    rw [read_eq_ok_iff, Holds, valueAt, nothing, Option.getD_none]
    refine and_congr_right fun inside => ?_
    have below : address.toInt.toNat < memory.capacity := by
      have nonnegative := inside.1
      have less := inside.2
      omega
    rw [cells_eq, getElem?_image below, Option.some.injEq, eq_comm]

theorem remembers_ofProgram (program : Program) (scratch : Nat) :
    Remembers program scratch [] (ofProgram program scratch) := by
  have capacity : (ofProgram program scratch).capacity = program.size + scratch :=
    size_image (Nat.le_add_right _ _)
  apply remembers_of_image rfl capacity
  · rw [capacity]
    rfl
  · exact fun _ => rfl

theorem Remembers.reset (remembers : Remembers program scratch past memory) :
    Remembers program scratch (past ++ [.reset]) memory.reset := by
  have capacity : memory.reset.capacity = memory.capacity := size_image memory.program_fits
  have program_eq : memory.reset.program = program := remembers.program_eq
  apply remembers_of_image program_eq (capacity.trans remembers.capacity_eq)
  · rw [capacity, ← remembers.program_eq]
    rfl
  · exact fun address => lastWritten?_reset address past

theorem Remembers.put {index : Fin memory.cells.size}
    (remembers : Remembers program scratch past memory)
    (found : memory.locate operation address = .ok index) (value : Word) :
    Remembers program scratch (past ++ [.write address value]) (memory.put index value) where
  capacity_eq := (Array.size_set index.isLt).trans remembers.capacity_eq
  program_eq := remembers.program_eq
  read_iff other result := by
    have capacity : (memory.put index value).capacity = memory.capacity :=
      Array.size_set index.isLt
    have place := locate_eq_ok_iff.mp found
    have before := remembers.read_iff other result
    rw [read_eq_ok_iff, Holds, and_congr_right_iff] at before
    have cell : (memory.put index value).cells[other.toInt.toNat]? =
        if index.val = other.toInt.toNat then some value else memory.cells[other.toInt.toNat]? :=
      Array.getElem?_set index.isLt
    rw [read_eq_ok_iff, Holds, valueAt, lastWritten?_write, cell]
    unfold Inside at before ⊢
    rw [capacity]
    refine and_congr_right fun inside => ?_
    by_cases same : address = other
    · have here : index.val = other.toInt.toNat := by rw [← same, place, Int.toNat_natCast]
      rw [if_pos here, if_pos same, Option.getD_some, Option.some.injEq, eq_comm]
    · have elsewhere : index.val ≠ other.toInt.toNat := by
        intro here
        have nonnegative := inside.1
        exact same (Int64.toInt_inj.mp (by omega))
      rw [if_neg elsewhere, if_neg same]
      exact before inside

/-- **One update.** A memory remembers an update that succeeds and, unchanged, one that does not. -/
theorem Remembers.update (remembers : Remembers program scratch past memory) (update : Update) :
    match memory.update update with
    | (.error _, next) => Remembers program scratch past next
    | (.ok (), next) => Remembers program scratch (past ++ [update]) next := by
  cases update with
  | reset => exact remembers.reset
  | write address value =>
      cases located : memory.locate "memory::write" address with
      | error error =>
          rw [update_write_of_refused located]
          exact remembers
      | ok index =>
          rw [update_write_of_locate located]
          exact remembers.put located value

/-- **Rows of updates.** Behind a row of updates a memory remembers those that succeeded. -/
theorem Remembers.updateAll (remembers : Remembers program scratch past memory)
    (updates : List Update) :
    Remembers program scratch (past ++ memory.landed updates) (memory.updateAll updates) := by
  induction updates generalizing memory past with
  | nil =>
      rw [landed, List.append_nil]
      exact remembers
  | cons update rest ih =>
      have first := remembers.update update
      have goesOn : memory.updateAll (update :: rest) = (memory.update update).2.updateAll rest :=
        rfl
      rw [goesOn, landed]
      cases came : memory.update update with
      | mk outcome next =>
          rw [came] at first
          cases outcome with
          | error error => exact ih first
          | ok done =>
              have later := ih first
              rwa [List.append_assoc, List.singleton_append] at later

/-! ## Used cells -/

theorem le_usedCount {cells : Array Word} {least count : Nat} (fits : least ≤ count) :
    least ≤ usedCount cells least count := by
  induction count with
  | zero => exact fits
  | succ count ih =>
      unfold usedCount
      split
      · exact fits
      · rename_i more
        split
        · exact ih (by omega)
        · exact fits

/-- No more cells are counted as used than have zeros alone behind them. -/
theorem usedCount_le_of_zeros {cells : Array Word} {least few count : Nat} (fits : least ≤ few)
    (zeros : ∀ place, few ≤ place → place < count → cells[place]? = some 0) :
    usedCount cells least count ≤ few := by
  induction count with
  | zero => exact Nat.zero_le few
  | succ count ih =>
      have before := ih fun place behind inside => zeros place behind (Nat.lt_succ_of_lt inside)
      unfold usedCount
      split
      · rename_i within
        exact Nat.le_trans within fits
      · split
        · exact before
        · rename_i used
          refine Nat.not_lt.mp fun behind => used ?_
          exact zeros count (Nat.le_of_lt_succ behind) (Nat.lt_succ_self count)

theorem trims_used (memory : Memory) : memory.Trims memory.used where
  first := List.take_prefix ..
  least := by
    rw [length_used]
    exact le_usedCount memory.program_fits
  padded := memory.cells_eq_used.symm

/-- **Trimming is minimal.** Nothing shorter than the used cells will do. -/
theorem length_used_le (trims : memory.Trims row) : memory.used.length ≤ row.length := by
  rw [length_used]
  refine usedCount_le_of_zeros trims.least fun place behind inside => ?_
  rw [← Array.getElem?_toList, ← trims.padded, List.getElem?_append_right behind,
    List.getElem?_replicate, if_pos (by omega)]

/-- **Updates are remembered.** Whatever is written to a memory and however often it is reset, it
keeps its capacity, which is the size of the program and the scratch cells together, and its
program. Reading succeeds just below the capacity, and gives the value of the last write to the
address that succeeded since the last reset, or else the program's cell, or else zero; elsewhere the
error says on which side. A write fails just where reading does, and leaves the memory as it was.
The used cells are the shortest row of first cells that is no shorter than the program and that with
zeros behind it gives all cells. -/
theorem updates_are_remembered
    (made : (ofProgram program scratch).updateAll updates = memory) :
    memory.capacity = program.size + scratch ∧ memory.program = program ∧
    (∀ address value, memory.read address = .ok value ↔ memory.Inside address.toInt ∧
      value = valueAt program ((ofProgram program scratch).landed updates) address) ∧
    (∀ address error, memory.read address = .error error ↔
      ¬ memory.Inside address.toInt ∧ error = memory.refusal "memory::read" address) ∧
    (∀ address value error next, memory.update (.write address value) = (.error error, next) ↔
      ¬ memory.Inside address.toInt ∧ error = memory.refusal "memory::write" address ∧
        next = memory) ∧
    memory.Trims memory.used ∧ ∀ row, memory.Trims row → memory.used.length ≤ row.length := by
  have remembers := (remembers_ofProgram program scratch).updateAll updates
  rw [List.nil_append, made] at remembers
  exact ⟨remembers.capacity_eq, remembers.program_eq, remembers.read_iff,
    fun _ _ => read_eq_error_iff, fun _ _ _ _ => update_write_eq_error_iff, trims_used memory,
    fun _ => length_used_le⟩

/-- A program that ends in a zero. -/
def worn : Program :=
  ⟨[7, 0]⟩

/-- Updates before and after a reset, with a write past either end, that leave scratch cells zero.
-/
def wear : List Update :=
  [.write 2 5, .reset, .write 0 9, .write 3 4, .write 5 1, .write (-1) 8, .write 3 0, .write 0 6]

/-- The cell before the scratch cells is zero and used. -/
theorem worn_is_remembered : ∃ memory, (ofProgram worn 3).updateAll wear = memory ∧
    memory.capacity = 5 ∧ memory.read 0 = .ok 6 ∧ memory.read 1 = .ok 0 ∧ memory.read 2 = .ok 0 ∧
    memory.read 5 = .error (memory.refusal "memory::read" 5) ∧
    (memory.update (.write (-1) 8)).2 = memory ∧
    memory.used = [6, 0] ∧ ∀ row, memory.Trims row → 2 ≤ row.length := by
  obtain ⟨capacity, _, reads, misses, writes, _, least⟩ :=
    updates_are_remembered (rfl : (ofProgram worn 3).updateAll wear = _)
  have used : ((ofProgram worn 3).updateAll wear).used = [6, 0] := by decide
  refine ⟨_, rfl, capacity, (reads 0 6).mpr ⟨by decide, by decide⟩,
    (reads 1 0).mpr ⟨by decide, by decide⟩,
    (reads 2 0).mpr ⟨by decide, by decide⟩,
    (misses 5 _).mpr ⟨by decide, rfl⟩, ?_, used, ?_⟩
  · rw [(writes (-1) 8 _ _).mpr ⟨by decide, rfl, rfl⟩]
  · intro row trims
    have short := least row trims
    rwa [used] at short

end Intcode.Memory
