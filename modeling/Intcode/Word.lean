/-! # Words

Every cell of a program, every register and every signal is one signed 64-bit word. Addition
and multiplication of words wrap around; only the sum that finds a relative address is clamped
instead (`Word.saturatingAdd`), so that an address too large to represent stays too large. -/

namespace Intcode

/-- A signed 64-bit value: a cell, an address or a signal. -/
abbrev Word := Int64

namespace Word

def least : Int := -Int.pow 2 63

def greatest : Int := Int.pow 2 63 - 1

/-- The sum of two words, clamped to the nearest word when it is none itself. -/
def saturatingAdd (left right : Word) : Word :=
  Int64.ofInt (max least (min greatest (left.toInt + right.toInt)))

end Word

end Intcode
