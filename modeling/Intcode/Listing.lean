import Intcode.Program
import Intcode.Instruction

/-! # Listings

A listing sweeps over the cells of a program from the first to the last. A cell that decodes to
an instruction whose parameters are all there makes one line with them; any other cell is a line
of data by itself. Code and data may be mixed freely in a program, so a listing is a reading aid
and no more. -/

namespace Intcode.Listing

/-- A line of a listing. -/
structure Line where
  address : Nat
  cells : List Word
  instruction : Option Instruction
  deriving DecidableEq, Repr

/-- The instruction at the front of some cells, if all its parameters are among them. -/
def complete? (cell : Word) (rest : List Word) : Option Instruction :=
  match Instruction.decode cell with
  | .error _ => none
  | .ok instruction =>
      if (rest.take instruction.opcode.arity).length = instruction.opcode.arity then
        some instruction
      else none

/-- The lines for cells that begin at an address. -/
def sweep (address : Nat) : List Word → List Line
  | [] => []
  | cell :: rest =>
      let instruction := complete? cell rest
      let arity := (instruction.map (·.opcode.arity)).getD 0
      ⟨address, cell :: rest.take arity, instruction⟩ ::
        sweep (address + 1 + arity) (rest.drop arity)
termination_by cells => cells.length
decreasing_by
  simp only [List.length_cons, List.length_drop]
  omega

def operandText (mode : Mode) (operand : Word) : List Char :=
  let digits := Text.Decimal.write operand.toInt
  match mode with
  | .position => ['['] ++ digits ++ [']']
  | .immediate => '#' :: digits
  | .relative =>
      if operand < 0 then ['[', 'r', 'b'] ++ digits ++ [']']
      else ['[', 'r', 'b', '+'] ++ digits ++ [']']

namespace Line

def name (line : Line) : String :=
  match line.instruction with
  | some instruction => instruction.opcode.mnemonic
  | none => "DATA"

/-- The operands of an instruction, or the value of data. -/
def operands (line : Line) : List Char :=
  match line.instruction with
  | some instruction =>
      Text.joinWith [',', ' ']
        (List.zipWith operandText instruction.paramModes (line.cells.drop 1))
  | none => Text.joinWith [] ((line.cells.take 1).map fun cell => Text.Decimal.write cell.toInt)

/-- The cells themselves, separated by commas. -/
def raw (line : Line) : List Char :=
  Text.joinWith [','] (line.cells.map fun cell => Text.Decimal.write cell.toInt)

/-- Address, cells, name and operands in columns. -/
def chars (line : Line) : List Char :=
  (Text.Decimal.writeNat line.address).leftpad 5 ' ' ++ [' ', ' '] ++ line.raw.rightpad 24 ' ' ++
    [' '] ++ line.name.toList.rightpad 5 ' ' ++ [' '] ++ line.operands

def text (line : Line) : String :=
  String.ofList line.chars

end Line

def lines (program : Program) : List Line :=
  sweep 0 program.cells

/-- The lines of a program without the blanks at their ends, one below the other. -/
def text (program : Program) : String :=
  String.ofList (Text.joinWith ['\n'] ((lines program).map fun line => Text.trimRight line.chars))

end Intcode.Listing
