import Intcode.Word

/-! # Decimal integers

An integer is written as an optional sign and one or more ASCII digits. Reading keeps to a range
and stops at the first fault met from the left: a character that is no digit, or a value that
has left the range. Writing uses the fewest digits, and a sign only for negative values. -/

namespace Intcode.Text.Decimal

/-- Why a text is no integer of the range. -/
inductive Fault
  | empty
  | invalidDigit
  | tooLarge
  | tooSmall
  deriving DecidableEq, Repr

def Fault.message : Fault → String
  | .empty => "cannot parse integer from empty string"
  | .invalidDigit => "invalid digit found in string"
  | .tooLarge => "number too large to fit in target type"
  | .tooSmall => "number too small to fit in target type"

def digitValue? (c : Char) : Option Nat :=
  if '0' ≤ c ∧ c ≤ '9' then some (c.toNat - '0'.toNat) else none

/-- Continues a magnitude with the digits of a text. Past `limit` the reading ends with
`beyond`, unless a bad digit came first. -/
def readMagnitude (limit : Nat) (beyond : Fault) : Nat → List Char → Except Fault Nat
  | magnitude, [] => .ok magnitude
  | magnitude, c :: rest =>
      match digitValue? c with
      | none => .error .invalidDigit
      | some digit =>
          if limit < magnitude * 10 + digit then .error beyond
          else readMagnitude limit beyond (magnitude * 10 + digit) rest

/-- Reads an integer between `low` and `high`. A range without negative values knows no minus
sign, so there it is a bad digit. -/
def read (low high : Int) : List Char → Except Fault Int
  | [] => .error .empty
  | '+' :: [] => .error .invalidDigit
  | '-' :: [] => .error .invalidDigit
  | '+' :: digits => (readMagnitude high.toNat .tooLarge 0 digits).map fun n => (n : Int)
  | '-' :: digits =>
      if low < 0 then (readMagnitude (-low).toNat .tooSmall 0 digits).map fun n => -(n : Int)
      else .error .invalidDigit
  | digits => (readMagnitude high.toNat .tooLarge 0 digits).map fun n => (n : Int)

/-- The digits of a natural number, most significant first, without leading zeros. -/
def writeNat (n : Nat) : List Char :=
  Nat.toDigits 10 n

def write : Int → List Char
  | .ofNat n => writeNat n
  | .negSucc n => '-' :: writeNat (n + 1)

end Decimal

def natText (n : Nat) : String :=
  String.ofList (Decimal.writeNat n)

end Intcode.Text

namespace Intcode.Word

open Text

def read (text : List Char) : Except Decimal.Fault Word :=
  (Decimal.read least greatest text).map Int64.ofInt

def text (word : Word) : String :=
  String.ofList (Decimal.write word.toInt)

end Intcode.Word

namespace Intcode.Text

/-- Reads a size, which is an unsigned 64-bit number. -/
def readSize (text : List Char) : Except Decimal.Fault UInt64 :=
  (Decimal.read 0 (Int.pow 2 64 - 1) text).map fun value => UInt64.ofNat value.toNat

end Intcode.Text
