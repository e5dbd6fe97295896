import Intcode.Text.Fields

/-! # Options and operands

The arguments of a command are options, each with its value if it takes one, and operands. An
option has a long name behind two hyphens and possibly a letter behind one. Letters can be put
together, the last of them taking the rest for its value; a value is attached, with or without an
equals sign, or is the next argument. Behind two lone hyphens everything is an operand. -/

namespace Intcode.CommandLine

/-- An option that a command knows. -/
structure Switch where
  long : String
  letter : Option Char := none
  /-- The option comes with a value. -/
  takesValue : Bool := false
  /-- A value that is an argument of its own may begin with a hyphen. -/
  hyphens : Bool := false
  deriving DecidableEq, Repr

/-- A piece of what was given on the command line. -/
inductive Given
  | flag (long : String)
  /-- An option with its value. -/
  | option (long value : String)
  | operand (text : String)
  deriving DecidableEq, Repr

namespace Given

/-- Whether an argument would be read as an option. A lone hyphen would not. -/
def looksLikeOption (argument : String) : Bool :=
  match argument.toList with
  | '-' :: _ :: _ => true
  | _ => false

/-- Reads letters put together. At the end an option may be left that still needs its value. -/
def readLetters (switches : List Switch) : List Char → Option (List Given × Option Switch)
  | [] => some ([], none)
  | letter :: rest =>
      match switches.find? fun switch => switch.letter == some letter with
      | none => none
      | some switch =>
          if switch.takesValue then
            match rest with
            | [] => some ([], some switch)
            | '=' :: attached => some ([.option switch.long (String.ofList attached)], none)
            | attached => some ([.option switch.long (String.ofList attached)], none)
          else
            (readLetters switches rest).map fun (given, pending) =>
              (.flag switch.long :: given, pending)

/-- Reads a long option: the name up to the first equals sign, and what is behind it. -/
def readLong (switches : List Switch) (written : List Char) :
    Option (List Given × Option Switch) :=
  let name := String.ofList (written.takeWhile (· ≠ '='))
  match switches.find? fun switch => switch.long == name with
  | none => none
  | some switch =>
      match switch.takesValue, written.dropWhile (· ≠ '=') with
      | true, [] => some ([], some switch)
      | true, _ :: attached => some ([.option switch.long (String.ofList attached)], none)
      | false, [] => some ([.flag switch.long], none)
      | false, _ :: _ => none

/-- Reads an argument that stands for itself, with what is left open at its end. -/
def readArgument (switches : List Switch) (argument : String) :
    Option (List Given × Option Switch) :=
  match argument.toList with
  | '-' :: '-' :: written => readLong switches written
  | '-' :: letter :: letters => readLetters switches (letter :: letters)
  | _ => some ([.operand argument], none)

/-- Reads the arguments of a command. There is none when an option is not known, lacks its value
or has one too many. -/
def read (switches : List Switch) :
    (pending : Option Switch) → List String → Option (List Given)
  | none, [] => some []
  | some _, [] => none
  | some switch, argument :: rest =>
      if looksLikeOption argument && !switch.hyphens then none
      else (read switches none rest).map (.option switch.long argument :: ·)
  | none, argument :: rest =>
      if argument = "--" then some (rest.map .operand)
      else
        match readArgument switches argument with
        | none => none
        | some (given, pending) => (read switches pending rest).map (given ++ ·)

def count (given : List Given) (long : String) : Nat :=
  given.countP fun piece =>
    match piece with
    | .flag name => name == long
    | .option name _ => name == long
    | .operand _ => false

def values (given : List Given) (long : String) : List String :=
  given.filterMap fun piece =>
    match piece with
    | .option name value => if name == long then some value else none
    | _ => none

def operands (given : List Given) : List String :=
  given.filterMap fun piece =>
    match piece with
    | .operand text => some text
    | _ => none

/-- Whether an option was given; there is no answer when it was given twice. -/
def once? (given : List Given) (long : String) : Option Bool :=
  match count given long with
  | 0 => some false
  | 1 => some true
  | _ => none

/-- The value of an option that can be given once, or what it is otherwise. -/
def single? {α : Type} (given : List Given) (long : String) (otherwise : α)
    (read : String → Option α) : Option α :=
  match values given long with
  | [] => some otherwise
  | [value] => read value
  | _ => none

def operand? (given : List Given) : Option String :=
  match operands given with
  | [text] => some text
  | _ => none

end Given

end Intcode.CommandLine
