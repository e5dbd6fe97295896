/-! # The log

While it works the program reports to a log. Every entry has a level and names the part of the
program it comes from; how much is shown is chosen on the command line. -/

namespace Intcode

/-- How important an entry is, from what is always shown to what hardly ever is. -/
inductive Level
  | warn
  | info
  | debug
  | trace
  deriving DecidableEq, Repr

namespace Level

/-- A level's place in that order. -/
def rank : Level → Nat
  | .warn => 2
  | .info => 3
  | .debug => 4
  | .trace => 5

def label : Level → String
  | .warn => "WARN "
  | .info => "INFO "
  | .debug => "DEBUG"
  | .trace => "TRACE"

/-- Whether entries of another level are shown when everything down to this one is. -/
def shows (threshold level : Level) : Bool :=
  level.rank ≤ threshold.rank

/-- What is shown when more was asked for a number of times. -/
def ofVerbosity : Nat → Level
  | 0 => .warn
  | 1 => .debug
  | _ => .trace

end Level

/-- The part of the program an entry comes from. -/
inductive Reporter
  | machine
  | chain
  | network
  | command
  deriving DecidableEq, Repr

def Reporter.name : Reporter → String
  | .machine => "intcode_vm::machine"
  | .chain => "intcode_net::chain"
  | .network => "intcode_net::network"
  | .command => "intcode"

/-- An entry of the log. -/
structure Entry where
  level : Level
  reporter : Reporter
  message : String
  deriving DecidableEq, Repr

def Entry.line (entry : Entry) : String :=
  "[" ++ entry.level.label ++ " " ++ entry.reporter.name ++ "] " ++ entry.message ++ "\n"

/-- Entries in the order in which they were made. -/
abbrev Log := List Entry

def Log.text (threshold : Level) (log : Log) : String :=
  String.join ((log.filter fun entry => threshold.shows entry.level).map Entry.line)

end Intcode
