import Intcode.Machine.Step

/-! # Runs within a budget

A budgeted run executes one instruction after the other, as long as fewer than an allowed number
have been executed. When an instruction finds no input, a lenient machine is fed a zero and tries
again, and a strict one ends the run. -/

namespace Intcode.Machine

def budgetSpent (limit : Nat) (m : Machine) : Error :=
  ((Error.ofMessage .budgetExhausted
    ("program did not halt within " ++ Text.natText limit ++ " steps")).inOperation
    "cli::run").withContext "ip" m.ip.text

/-- One instruction of a budgeted run. There is an outcome when the run is over. -/
def budgetStep (m : Machine) : Option (Except Error Unit) × Machine :=
  match m.step with
  | (.error error, m) => (some (.error error), m)
  | (.ok .halted, m) => (some (.ok ()), m)
  | (.ok .needsInput, m) =>
      match m.config.underrun with
      | .error => (some (.error ((Error.inputUnderrun m.ip).inOperation "cli::run")), m)
      | .zero =>
          match (m.feed [0]).step with
          | (.error error, m) => (some (.error error), m)
          | (.ok .halted, m) => (some (.ok ()), m)
          | (.ok _, m) => (none, m)
  | (.ok _, m) => (none, m)

/-- Executes further instructions, `remaining` at most, of an allowance of `limit`. -/
def runRemaining (limit : Nat) : (remaining : Nat) → Machine → Except Error Unit × Machine
  | 0, m => (.error (budgetSpent limit m), m)
  | remaining + 1, m =>
      match m.budgetStep with
      | (some outcome, m) => (outcome, m)
      | (none, m) => runRemaining limit remaining m

/-- Runs until the machine halts or has executed `limit` instructions altogether. -/
def runWithin (limit : Nat) (m : Machine) : Except Error Unit × Machine :=
  runRemaining limit (limit - m.steps) m

end Intcode.Machine
