import Intcode.Error

/-! # Instructions

A cell that is executed holds an operation in its two lowest decimal digits and one addressing
mode per parameter in the digits above, the first parameter's lowest. How many parameters follow
is settled by the operation alone, so one cell decodes by itself (`Instruction.decode`). Digits
above the last parameter's are ignored. -/

namespace Intcode

/-- The most parameters any operation takes. -/
abbrev maxParams : Nat := 3

def firstParam : Fin maxParams := 0
def secondParam : Fin maxParams := 1
def thirdParam : Fin maxParams := 2

/-- What an instruction does. -/
inductive Opcode
  | add
  | multiply
  | input
  | output
  | jumpIfTrue
  | jumpIfFalse
  | lessThan
  | equals
  | adjustBase
  | halt
  deriving DecidableEq, Repr

namespace Opcode

/-- Every operation, by increasing code. -/
def all : List Opcode :=
  [.add, .multiply, .input, .output, .jumpIfTrue, .jumpIfFalse, .lessThan, .equals, .adjustBase,
    .halt]

def code : Opcode → Word
  | .add => 1
  | .multiply => 2
  | .input => 3
  | .output => 4
  | .jumpIfTrue => 5
  | .jumpIfFalse => 6
  | .lessThan => 7
  | .equals => 8
  | .adjustBase => 9
  | .halt => 99

def ofCode? (code : Word) : Option Opcode :=
  if code = 1 then some .add
  else if code = 2 then some .multiply
  else if code = 3 then some .input
  else if code = 4 then some .output
  else if code = 5 then some .jumpIfTrue
  else if code = 6 then some .jumpIfFalse
  else if code = 7 then some .lessThan
  else if code = 8 then some .equals
  else if code = 9 then some .adjustBase
  else if code = 99 then some .halt
  else none

/-- The number of parameters, each one cell behind the instruction. -/
def arity : Opcode → Nat
  | .add | .multiply | .lessThan | .equals => 3
  | .jumpIfTrue | .jumpIfFalse => 2
  | .input | .output | .adjustBase => 1
  | .halt => 0

/-- The parameter an operation writes to, counted from zero. -/
def writeParam? : Opcode → Option (Fin maxParams)
  | .add | .multiply | .lessThan | .equals => some 2
  | .input => some 0
  | _ => none

def name : Opcode → String
  | .add => "ADD"
  | .multiply => "MULTIPLY"
  | .input => "INPUT"
  | .output => "OUTPUT"
  | .jumpIfTrue => "JUMP_IF_TRUE"
  | .jumpIfFalse => "JUMP_IF_FALSE"
  | .lessThan => "LESS_THAN"
  | .equals => "EQUALS"
  | .adjustBase => "ADJUST_BASE"
  | .halt => "HALT"

def mnemonic : Opcode → String
  | .add => "ADD"
  | .multiply => "MUL"
  | .input => "IN"
  | .output => "OUT"
  | .jumpIfTrue => "JNZ"
  | .jumpIfFalse => "JZ"
  | .lessThan => "LT"
  | .equals => "EQ"
  | .adjustBase => "ARB"
  | .halt => "HALT"

end Opcode

/-- How a parameter's cell is turned into the place it stands for. -/
inductive Mode
  /-- The cell holds an address. -/
  | position
  /-- The cell holds the value itself. -/
  | immediate
  /-- The cell holds an offset from the relative base. -/
  | relative
  deriving DecidableEq, Repr, Inhabited

namespace Mode

/-- Every mode, by increasing digit. -/
def all : List Mode :=
  [.position, .immediate, .relative]

def name : Mode → String
  | .position => "position"
  | .immediate => "immediate"
  | .relative => "relative"

def digit : Mode → Word
  | .position => 0
  | .immediate => 1
  | .relative => 2

def ofDigit? (digit : Word) : Option Mode :=
  if digit = 0 then some .position
  else if digit = 1 then some .immediate
  else if digit = 2 then some .relative
  else none

end Mode

/-- A decoded cell. -/
structure Instruction where
  /-- The cell itself. -/
  raw : Word
  opcode : Opcode
  /-- The parameters' modes; those past the operation's arity are `position`. -/
  modes : Vector Mode maxParams
  deriving DecidableEq, Repr

namespace Instruction

/-- The mode digit for a parameter: the hundreds for the first, and so on upwards. -/
def modeDigit (raw : Word) : Fin maxParams → Word
  | 0 => raw / 100 % 10
  | 1 => raw / 1000 % 10
  | 2 => raw / 10000 % 10

/-- The mode of a parameter under an operation. -/
def modeAt (raw : Word) (opcode : Opcode) (param : Fin maxParams) : Except Error Mode :=
  if param.val < opcode.arity then
    match Mode.ofDigit? (modeDigit raw param) with
    | some mode => .ok mode
    | none => .error (Error.invalidMode raw param)
  else .ok .position

/-- The modes of all parameters; the first that has none decides the error. -/
def modesOf (raw : Word) (opcode : Opcode) : Except Error (Vector Mode maxParams) := do
  let first ← modeAt raw opcode firstParam
  let second ← modeAt raw opcode secondParam
  let third ← modeAt raw opcode thirdParam
  return #v[first, second, third]

/-- The parameter that would be written in immediate mode. -/
def immediateTarget? (opcode : Opcode) (modes : Vector Mode maxParams) : Option (Fin maxParams) :=
  opcode.writeParam?.filter fun target => modes[target] = .immediate

/-- Decodes a cell. A parameter to be written must name a place, so immediate mode is refused
for it here and execution never meets one. -/
def decode (raw : Word) : Except Error Instruction :=
  match Opcode.ofCode? (raw % 100) with
  | none => .error (Error.invalidOpcode raw)
  | some opcode => do
      let modes ← modesOf raw opcode
      match immediateTarget? opcode modes with
      | some target => .error (Error.immediateWrite raw target)
      | none => .ok { raw, opcode, modes }

/-- The number of cells an instruction takes, its own included. -/
def width (instruction : Instruction) : Nat :=
  1 + instruction.opcode.arity

/-- The modes of the parameters in use. -/
def paramModes (instruction : Instruction) : List Mode :=
  instruction.modes.toList.take instruction.opcode.arity

end Instruction

end Intcode
