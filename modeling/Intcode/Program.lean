import Intcode.Error
import Intcode.Text.Blank
import Intcode.Text.Fields

/-! # Programs

A program is the image a machine starts from: a row of words, written as decimal integers
separated by commas. Blanks are allowed around the text and around every integer. -/

namespace Intcode

/-- The initial cells of a machine. -/
structure Program where
  cells : List Word
  deriving DecidableEq, Repr

namespace Program

def size (program : Program) : Nat :=
  program.cells.length

/-- The written form: the cells in decimal with commas between them. -/
def text (program : Program) : String :=
  String.ofList
    (Text.joinWith [','] (program.cells.map fun cell => Text.Decimal.write cell.toInt))

/-- The cells written in the fields of a text, the first of which has the given index. The first
field that is no word decides the error. -/
def readFields : Nat → List (List Char) → Except Error (List Word)
  | _, [] => .ok []
  | index, field :: fields =>
      match Word.read (Text.trim field) with
      | .error fault =>
          .error (((Error.badToken index (String.ofList (Text.trim field))).inOperation
            "program::parse").becauseOf fault.message)
      | .ok cell => (readFields (index + 1) fields).map (cell :: ·)

/-- Reads the written form. -/
def parse (text : String) : Except Error Program :=
  match Text.trim text.toList with
  | [] => .error ((Error.parseFailed "program text is empty").inOperation "program::parse")
  | written => (readFields 0 (Text.splitOn ',' written)).map Program.mk

end Program

end Intcode
