import Intcode.Memory

/-! # Effects

What an instruction wants done is a function of its operation and its resolved parameters alone.
The effect is only described here; carrying it out is the machine's part. -/

namespace Intcode

/-- What an executed instruction asks of its machine. -/
inductive Effect
  | store (address value : Word)
  | input (address : Word)
  | output (value : Word)
  | jump (target : Word)
  | adjustBase (delta : Word)
  | advance
  | halt
  deriving DecidableEq, Repr

namespace Effect

def truth (condition : Bool) : Word :=
  if condition then 1 else 0

def jumpWhen (condition : Bool) (target : Word) : Effect :=
  if condition then .jump target else .advance

/-- The effect of an operation on its parameters. Those past the arity do not matter. -/
def of (opcode : Opcode) (params : Vector Param maxParams) : Effect :=
  match opcode with
  | .add => .store params[2].address (params[0].value + params[1].value)
  | .multiply => .store params[2].address (params[0].value * params[1].value)
  | .input => .input params[0].address
  | .output => .output params[0].value
  | .jumpIfTrue => jumpWhen (params[0].value != 0) params[1].value
  | .jumpIfFalse => jumpWhen (params[0].value == 0) params[1].value
  | .lessThan => .store params[2].address (truth (params[0].value < params[1].value))
  | .equals => .store params[2].address (truth (params[0].value == params[1].value))
  | .adjustBase => .adjustBase params[0].value
  | .halt => .halt

end Effect

end Intcode
