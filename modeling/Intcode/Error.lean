import Intcode.Word
import Intcode.Text.Decimal

/-! # Errors

An error says what kind of thing went wrong, in which operation, with which particulars, and
what caused it. Its own account is a `Diagnosis`; the causes behind it are kept as one list,
nearest first, so that an error wrapped by another is simply put in front of the causes it
already had (`Error.causedBy`).

An error is renamed on its way up: each operation that passes it on becomes the error's
operation, and the one named before moves into the particulars under `called`, so the chain of
calls can be read off (`Error.inOperation`). -/

namespace Intcode

/-- What went wrong, coarse enough for a caller to branch on. -/
inductive ErrorKind
  | unexpected
  | invalidArgument
  | configInvalid
  | parseFailed
  | invalidOpcode
  | invalidMode
  | immediateWrite
  | negativeAddress
  | addressOutOfBounds
  | inputUnderrun
  | machineFailed
  | budgetExhausted
  | channelClosed
  | fileNotFound
  | permissionDenied
  | ioFailed
  deriving DecidableEq, Repr

namespace ErrorKind

/-- Every kind, from the general ones to those of files. -/
def all : List ErrorKind :=
  [.unexpected, .invalidArgument, .configInvalid, .parseFailed, .invalidOpcode, .invalidMode,
    .immediateWrite, .negativeAddress, .addressOutOfBounds, .inputUnderrun, .machineFailed,
    .budgetExhausted, .channelClosed, .fileNotFound, .permissionDenied, .ioFailed]

def name : ErrorKind → String
  | .unexpected => "Unexpected"
  | .invalidArgument => "InvalidArgument"
  | .configInvalid => "ConfigInvalid"
  | .parseFailed => "ParseFailed"
  | .invalidOpcode => "InvalidOpcode"
  | .invalidMode => "InvalidMode"
  | .immediateWrite => "ImmediateWrite"
  | .negativeAddress => "NegativeAddress"
  | .addressOutOfBounds => "AddressOutOfBounds"
  | .inputUnderrun => "InputUnderrun"
  | .machineFailed => "MachineFailed"
  | .budgetExhausted => "BudgetExhausted"
  | .channelClosed => "ChannelClosed"
  | .fileNotFound => "FileNotFound"
  | .permissionDenied => "PermissionDenied"
  | .ioFailed => "IoFailed"

/-- A fatal error leaves the machine it struck unable to run until it is reset. -/
def isFatal : ErrorKind → Bool
  | .invalidOpcode | .invalidMode | .immediateWrite | .negativeAddress | .addressOutOfBounds
  | .inputUnderrun | .machineFailed => true
  | _ => false

end ErrorKind

/-- One error's own account of itself, its causes left out. -/
structure Diagnosis where
  kind : ErrorKind
  message : String
  /-- The outermost operation that passed the error on; empty when none has yet. -/
  operation : String := ""
  /-- Particulars by name, in the order given, with repetitions kept. -/
  context : List (String × String) := []
  deriving DecidableEq, Repr

namespace Diagnosis

/-- The particulars as `name: value`, separated by commas. -/
def contextText (diagnosis : Diagnosis) : String :=
  ", ".intercalate (diagnosis.context.map fun (key, value) => key ++ ": " ++ value)

/-- The compact form for a log: kind, operation, particulars, message. Parts that are empty are
left out. -/
def display (diagnosis : Diagnosis) : String :=
  diagnosis.kind.name ++
    (if diagnosis.operation = "" then "" else " at " ++ diagnosis.operation) ++
    (if diagnosis.context = [] then ""
      else ", context \x7b " ++ diagnosis.contextText ++ " \x7d") ++
    (if diagnosis.message = "" then "" else " => " ++ diagnosis.message)

end Diagnosis

/-- Something behind an error: a plain sentence, or another error's account. -/
inductive Cause
  | text (sentence : String)
  | error (diagnosis : Diagnosis)
  deriving DecidableEq, Repr

def Cause.display : Cause → String
  | .text sentence => sentence
  | .error diagnosis => diagnosis.display

/-- An error together with the causes behind it, nearest first. -/
structure Error extends Diagnosis where
  causes : List Cause := []
  deriving DecidableEq, Repr

namespace Error

/-- An error about which only kind and message are known so far. -/
def ofMessage (kind : ErrorKind) (message : String) : Error :=
  { kind, message }

/-- The compact, single-line form. -/
def display (error : Error) : String :=
  error.toDiagnosis.display

/-- Whether the error stops the machine that raised it. -/
def isFatal (error : Error) : Bool :=
  error.kind.isFatal

/-- Adds a particular behind those already there. -/
def withContext (error : Error) (key value : String) : Error :=
  { error with context := error.context ++ [(key, value)] }

/-- Names the operation that passes the error on. An operation named before moves into the
particulars as `called`. -/
def inOperation (error : Error) (operation : String) : Error :=
  { error with
    operation
    context :=
      if error.operation = "" then error.context
      else error.context ++ [("called", error.operation)] }

/-- The first particular of a name. -/
def contextValue? (error : Error) (key : String) : Option String :=
  error.context.lookup key

/-- Puts a plain sentence behind an error, in place of the causes it had. -/
def becauseOf (error : Error) (sentence : String) : Error :=
  { error with causes := [.text sentence] }

/-- Puts a whole error behind an error, in place of the causes it had. -/
def causedBy (error source : Error) : Error :=
  { error with causes := .error source.toDiagnosis :: source.causes }

/-! ## The detailed form -/

/-- A line break behind which the rest of a text is indented by `margin`. -/
private def indentLines (margin : String) (text : String) : String :=
  String.join (text.toList.map fun c => if c = '\n' then "\n" ++ margin else c.toString)

/-- Numbered causes, one a line, numbers right-aligned in five columns. -/
private def numberedCauses : Nat → List Cause → String
  | _, [] => ""
  | index, cause :: rest =>
      let number := Text.natText index
      "\n" ++ "".pushn ' ' (5 - number.length) ++ number ++ ": " ++
        indentLines "       " cause.display ++ numberedCauses (index + 1) rest

/-- A cause followed by those behind it. A single deeper cause stands alone, several are
numbered. -/
def causesText : List Cause → String
  | [] => ""
  | [cause] => cause.display
  | [cause, deeper] =>
      cause.display ++ "\n\nCaused by:\n    " ++ indentLines "    " deeper.display
  | cause :: deeper => cause.display ++ "\n\nCaused by:" ++ numberedCauses 0 deeper

/-- The detailed form over several lines: kind and operation, then message, particulars and
causes where there are any. -/
def details (error : Error) : String :=
  error.kind.name ++ " at " ++ error.operation ++ "\n" ++
    (if error.message = "" then "" else "\n    Message: " ++ error.message ++ "\n") ++
    (if error.context = [] then ""
      else "\n    Context:\n" ++
        String.join (error.context.map fun (key, value) =>
          "        " ++ key ++ ": " ++ value ++ "\n")) ++
    (if error.causes = [] then "" else "\n    Source: " ++ causesText error.causes ++ "\n")

/-! ## The errors of a machine and of what is built from machines -/

def unexpected (message : String) : Error :=
  ofMessage .unexpected message

def invalidArgument (message : String) : Error :=
  ofMessage .invalidArgument message

def configInvalid (message : String) : Error :=
  ofMessage .configInvalid message

def parseFailed (message : String) : Error :=
  ofMessage .parseFailed message

def machineFailed (message : String) : Error :=
  ofMessage .machineFailed message

/-- A run used up its allowance. -/
def budgetExhausted (limit : Nat) : Error :=
  (ofMessage .budgetExhausted ("budget of " ++ Text.natText limit ++ " exhausted")).withContext
    "limit" (Text.natText limit)

/-- A channel between machines ended while a reader was waiting for it. -/
def channelClosed (name : String) : Error :=
  (ofMessage .channelClosed ("channel '" ++ name ++ "' closed")).withContext "channel" name

/-- The two low digits of a cell name no operation. -/
def invalidOpcode (raw : Word) : Error :=
  ((ofMessage .invalidOpcode ("cell " ++ raw.text ++ " decodes to no known opcode")).withContext
    "raw" raw.text).withContext "opcode" (Word.text (raw % 100))

/-- A mode digit is none of the three. -/
def invalidMode (raw : Word) (param : Nat) : Error :=
  ((ofMessage .invalidMode
    ("parameter " ++ Text.natText param ++ " of " ++ raw.text ++
      " has an unknown mode")).withContext
    "raw" raw.text).withContext "param" (Text.natText param)

/-- A parameter to be written is given as an immediate value. -/
def immediateWrite (raw : Word) (param : Nat) : Error :=
  ((ofMessage .immediateWrite
    ("parameter " ++ Text.natText param ++ " of " ++ raw.text ++
      " is written but uses immediate mode")).withContext
    "raw" raw.text).withContext "param" (Text.natText param)

def negativeAddress (address : Word) : Error :=
  (ofMessage .negativeAddress ("negative address " ++ address.text)).withContext
    "address" address.text

def outOfBounds (address : Word) (capacity : Nat) : Error :=
  ((ofMessage .addressOutOfBounds
    ("address " ++ address.text ++ " beyond working memory of " ++ Text.natText capacity ++
      " cells")).withContext
    "address" address.text).withContext "capacity" (Text.natText capacity)

/-- An input instruction found nothing to read where reading nothing is an error. -/
def inputUnderrun (ip : Word) : Error :=
  (ofMessage .inputUnderrun "input needed but the queue is empty").withContext "ip" ip.text

def alreadyFailed : Error :=
  machineFailed "machine failed earlier, reset it before running again"

/-- A field of a program text is no word. -/
def badToken (index : Nat) (token : String) : Error :=
  ((parseFailed
    ("value " ++ Text.natText index ++ " ('" ++ token ++ "') is not an integer")).withContext
    "index" (Text.natText index)).withContext "token" token

end Error

end Intcode
