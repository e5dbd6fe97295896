import Intcode.Instruction
import Intcode.Program

/-! # Working memory

The working memory of a machine has a fixed number of cells: those of the program and a margin
of scratch cells, which are zero until written. An address outside is an error and memory never
grows. Since the program is kept beside the working cells, resetting needs nothing else. -/

namespace Intcode

/-- A parameter's place and the value found there. -/
structure Param where
  /-- The place; for an immediate parameter it is the parameter's own cell. -/
  address : Word
  value : Word
  deriving DecidableEq, Repr, Inhabited

/-- A program together with the working copy of its cells and the scratch cells behind them. -/
structure Memory where
  program : Program
  cells : Array Word
  program_fits : program.size ≤ cells.size
  deriving DecidableEq

namespace Memory

/-- The cells a program starts with when there is room for `capacity`. -/
def image (program : Program) (capacity : Nat) : Array Word :=
  program.cells.toArray ++ Array.replicate (capacity - program.size) 0

theorem size_image {program : Program} {capacity : Nat} (fits : program.size ≤ capacity) :
    (image program capacity).size = capacity := by
  simp only [image, Array.size_append, List.size_toArray, Array.size_replicate]
  exact Nat.add_sub_cancel' fits

/-- The program's cells followed by `scratch` zeros. -/
def ofProgram (program : Program) (scratch : Nat) : Memory where
  program
  cells := image program (program.size + scratch)
  program_fits := by
    rw [size_image (Nat.le_add_right _ _)]
    exact Nat.le_add_right _ _

def capacity (memory : Memory) : Nat :=
  memory.cells.size

/-- The index of an address, on behalf of an operation that is named in the error. -/
def locate (memory : Memory) (operation : String) (address : Word) :
    Except Error (Fin memory.cells.size) :=
  if address < 0 then .error ((Error.negativeAddress address).inOperation operation)
  else if inside : address.toNatClampNeg < memory.cells.size then
    .ok ⟨address.toNatClampNeg, inside⟩
  else .error ((Error.outOfBounds address memory.capacity).inOperation operation)

def read (memory : Memory) (address : Word) : Except Error Word :=
  (memory.locate "memory::read" address).map fun index => memory.cells[index]

def put (memory : Memory) (index : Fin memory.cells.size) (value : Word) : Memory where
  program := memory.program
  cells := memory.cells.set index value
  program_fits := by
    rw [Array.size_set]
    exact memory.program_fits

def write (memory : Memory) (address value : Word) : Except Error Memory :=
  (memory.locate "memory::write" address).map fun index => memory.put index value

/-- The place a parameter's cell stands for, under a mode and a relative base. -/
def effectiveAddress (slot operand relativeBase : Word) : Mode → Word
  | .position => operand
  | .immediate => slot
  | .relative => relativeBase.saturatingAdd operand

/-- The parameter whose cell is at `slot`. -/
def resolve (memory : Memory) (slot : Word) (mode : Mode) (relativeBase : Word) :
    Except Error Param := do
  let operand ← memory.read slot
  let address := effectiveAddress slot operand relativeBase mode
  let value ← memory.read address
  return { address, value }

/-- The program's cells as they were and zero everywhere else. -/
def reset (memory : Memory) : Memory where
  program := memory.program
  cells := image memory.program memory.capacity
  program_fits :=
    Nat.le_trans memory.program_fits (Nat.le_of_eq (size_image memory.program_fits).symm)

/-- How many of the first `count` cells remain when trailing zeros are dropped, but never fewer
than `least`. -/
def usedCount (cells : Array Word) (least : Nat) : Nat → Nat
  | 0 => 0
  | count + 1 =>
      if count + 1 ≤ least then count + 1
      else if cells[count]? = some 0 then usedCount cells least count
      else count + 1

/-- The cells up to the last that is not zero, and at least as many as the program has. -/
def used (memory : Memory) : List Word :=
  memory.cells.toList.take (usedCount memory.cells memory.program.size memory.capacity)

end Memory

end Intcode
