import Intcode.Json.Basic
import Intcode.Text.Decimal

/-! # What numbers and strings stand for

An integer is written with digits alone and a minus sign before a negative value; minus zero is
none. The escapes of a string name characters; those above the basic plane are named by two
escapes, a leading and a trailing surrogate, and a surrogate by itself names nothing. -/

namespace Intcode.Json

def ofInt (value : Int) : Json :=
  .number (Text.Decimal.write value)

/-- The integer that a number stands for, if it lies in a range. -/
def int? (low high : Int) : Json → Option Int
  | .number ['-', '0'] => none
  | .number written => (Text.Decimal.read low high written).toOption
  | _ => none

def hexValue (c : Char) : Nat :=
  if c ≤ '9' then c.toNat - '0'.toNat
  else if c ≤ 'F' then c.toNat - 'A'.toNat + 10
  else c.toNat - 'a'.toNat + 10

def codeUnit (a b c d : Char) : Nat :=
  ((hexValue a * 16 + hexValue b) * 16 + hexValue c) * 16 + hexValue d

/-- The character that a backslash and a letter stand for. -/
def escaped : Char → Char
  | 'b' => '\x08'
  | 'f' => '\x0c'
  | 'n' => '\n'
  | 'r' => '\r'
  | 't' => '\t'
  | c => c

/-- The text of a string literal. A leading surrogate that was just read is carried along until
the escape behind it completes it. -/
def decodeFrom : (leading : Option Nat) → List Char → Option (List Char)
  | none, [] => some []
  | some _, [] => none
  | leading, '\\' :: 'u' :: a :: b :: c :: d :: rest =>
      let code := codeUnit a b c d
      match leading with
      | some high =>
          if 0xDC00 ≤ code ∧ code < 0xE000 then
            (decodeFrom none rest).map
              (Char.ofNat (0x10000 + (high - 0xD800) * 0x400 + (code - 0xDC00)) :: ·)
          else none
      | none =>
          if 0xD800 ≤ code ∧ code < 0xDC00 then decodeFrom (some code) rest
          else if 0xDC00 ≤ code ∧ code < 0xE000 then none
          else (decodeFrom none rest).map (Char.ofNat code :: ·)
  | some _, _ :: _ => none
  | none, '\\' :: escape :: rest => (decodeFrom none rest).map (escaped escape :: ·)
  | none, c :: rest => (decodeFrom none rest).map (c :: ·)

def decode? (literal : List Char) : Option String :=
  (decodeFrom none literal).map String.ofList

end Intcode.Json
