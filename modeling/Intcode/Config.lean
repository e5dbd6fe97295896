/-! # Settings of a machine -/

namespace Intcode

/-- What reading does when nothing is queued and no provider answers. -/
inductive Underrun
  | zero
  | error
  deriving DecidableEq, Repr

namespace Underrun

/-- Every policy. -/
def all : List Underrun :=
  [.zero, .error]

def name : Underrun → String
  | .zero => "zero"
  | .error => "error"

end Underrun

/-- The number of cells past the program a machine is given unless told otherwise. -/
def defaultScratch : UInt64 := 4096

/-- The settings a machine is built with. -/
structure Config where
  scratchCells : UInt64 := defaultScratch
  /-- What a run that does not pause for input does when there is none. -/
  underrun : Underrun := .zero
  deriving DecidableEq, Repr

/-- The usual scratch cells, and an underrun is an error. -/
def Config.strict : Config :=
  { underrun := .error }

end Intcode
