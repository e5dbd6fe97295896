/-! # Bounded iteration

A run that need not end is the repetition of one turn, which either goes on from a new state or
answers. `iterate` makes a given number of turns at most and has no answer when they did not
suffice; an answer, once there, does not depend on how many more turns were allowed
(`iterate_add`). -/

namespace Intcode

/-- What a turn of a repetition comes to. -/
inductive Turn (State Answer : Type)
  | again (state : State)
  | done (answer : Answer)

/-- Repeats a turn until it answers, `fuel` times at most. A turn that has no result itself
leaves the whole without an answer. -/
@[specialize]
def iterate {State Answer : Type} (turn : State → Option (Turn State Answer)) :
    (fuel : Nat) → State → Option Answer
  | 0, _ => none
  | fuel + 1, state =>
      match turn state with
      | none => none
      | some (.done answer) => some answer
      | some (.again next) => iterate turn fuel next

/-- An answer stays when more turns are allowed. -/
theorem iterate_add {State Answer : Type} {turn : State → Option (Turn State Answer)}
    {fuel : Nat} {state : State} {answer : Answer} (found : iterate turn fuel state = some answer)
    (more : Nat) : iterate turn (fuel + more) state = some answer := by
  induction fuel generalizing state with
  | zero => simp [iterate] at found
  | succ fuel ih =>
      rw [Nat.add_right_comm]
      simp only [iterate] at found ⊢
      split at found
      · simp at found
      · exact found
      · exact ih found

end Intcode
