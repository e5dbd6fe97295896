import Intcode.Log
import Intcode.Text.Blank
import Intcode.Text.Decimal
import Intcode.Text.Quoted

/-! # Values from standard input

A program that runs interactively is given the lines of standard input. A line is a single word,
or else every byte of the line followed by a line feed, whatever ended the line. Lines that are
no word are passed over with a remark. A line that is no text is remarked on too, but it is not
passed over: the question it was to answer is refused. -/

namespace Intcode.StandardInput

/-- The answer to one question for input, with the remarks made on the way to it. -/
structure Reading where
  value : Option Word
  remarks : Log := []
  deriving DecidableEq, Repr

/-- The lines of some bytes, each with the line feed at its end; the last may lack it. -/
def lines : List UInt8 → List (List UInt8)
  | [] => []
  | byte :: rest =>
      if byte = 10 then [byte] :: lines rest
      else
        match lines rest with
        | [] => [[byte]]
        | line :: others => (byte :: line) :: others

def text? (line : List UInt8) : Option (List Char) :=
  (String.fromUTF8? ⟨line.toArray⟩).map String.toList

def unreadable : Entry :=
  ⟨.warn, .command, "failed to read stdin: stream did not contain valid UTF-8"⟩

def ignored (line : List Char) (fault : Text.Decimal.Fault) : Entry :=
  ⟨.warn, .command, "ignoring " ++ String.ofList (Text.quoted line) ++ ": " ++ fault.message⟩

/-- The answers that lines give when each is to be a word. Remarks on lines passed over come with
the next answer, or with the refusal at the end. -/
def numbers : (remarks : Log) → List (List UInt8) → List Reading
  | [], [] => []
  | remarks, [] => [⟨none, remarks⟩]
  | remarks, line :: rest =>
      match text? line with
      | none => ⟨none, remarks ++ [unreadable]⟩ :: numbers [] rest
      | some line =>
          match Word.read (Text.trim line) with
          | .ok value => ⟨some value, remarks⟩ :: numbers [] rest
          | .error fault => numbers (remarks ++ [ignored (Text.trim line) fault]) rest

def isLineEnd (byte : UInt8) : Bool :=
  byte = 10 || byte = 13

/-- A line without what ends it, and a line feed instead. -/
def characters (line : List UInt8) : List UInt8 :=
  (line.reverse.dropWhile isLineEnd).reverse ++ [10]

/-- The answers that a line gives when it is taken byte by byte. -/
def bytes (line : List UInt8) : List Reading :=
  match text? line with
  | none => [⟨none, [unreadable]⟩]
  | some _ => (characters line).map fun byte => ⟨some (Int64.ofNat byte.toNat), []⟩

/-- The answers that standard input gives to one question after the other. -/
def readings (ascii : Bool) (input : List UInt8) : List Reading :=
  if ascii then (lines input).flatMap bytes else numbers [] (lines input)

def remarksOf (readings : List Reading) : Nat → Log :=
  let all := readings.toArray
  fun question => (all[question]?.map (·.remarks)).getD []

end Intcode.StandardInput
