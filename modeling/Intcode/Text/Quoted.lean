import Intcode.Text.Visible

/-! # Quoted texts

A text that is quoted in a message stands between quotation marks, with the characters that could
be misread written as escapes: the mark itself and the backslash, the common controls, and by
their code in braces all characters without a visible form. -/

namespace Intcode.Text

/-- A character as it stands between quotation marks. -/
def escape (c : Char) : List Char :=
  match c with
  | '\x00' => ['\\', '0']
  | '\t' => ['\\', 't']
  | '\r' => ['\\', 'r']
  | '\n' => ['\\', 'n']
  | '\\' => ['\\', '\\']
  | '"' => ['\\', '"']
  | c =>
      if isVisible c then [c]
      else ['\\', 'u', '\x7b'] ++ Nat.toDigits 16 c.toNat ++ ['\x7d']

def quoted (text : List Char) : List Char :=
  '"' :: text.flatMap escape ++ ['"']

end Intcode.Text
