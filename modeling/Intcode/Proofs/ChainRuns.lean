import Intcode.Chain.Orderings
import Intcode.Proofs.Runs

/-! # Runs of chains

What passing a signal through machines can come to is listed once (`Chain.SerialPasses`,
`Chain.FeedbackPasses`); what later modules say about passes is proved by induction on these lists.
The loop of a chain repeats a pass, whose result is either the signal of the next pass or the result
of the whole (`Chain.feedback_cases`). A run of a chain that was given enough fuel comes to the same
with more (`Chain.runSerial_add`, `Chain.runFeedback_add`). -/

namespace Intcode

namespace Chain

variable {chain after : Chain} {machines left : List Machine} {fuel turns index : Nat}
  {signal : Word} {result : Except Error Word} {turn : Turn Word (Except Error Word)}

/-! ## Passes -/

/-- A signal is sent once through machines of which the first has the given position, with a result
and the machines that are left. -/
inductive SerialPasses (fuel : Nat) :
    Nat → Word → List Machine → Except Error Word → List Machine → Prop
  | nothing {index : Nat} {signal : Word} : SerialPasses fuel index signal [] (.ok signal) []
  | failed {index : Nat} {signal : Word} {m called : Machine} {rest : List Machine} {error : Error}
      (returned : m.runToHalt fuel [signal] = some (.error error, called)) :
      SerialPasses fuel index signal (m :: rest) (.error (atAmplifier index error))
        (called :: rest)
  | silent {index : Nat} {signal : Word} {m called : Machine} {rest : List Machine}
      (returned : m.runToHalt fuel [signal] = some (.ok none, called)) :
      SerialPasses fuel index signal (m :: rest)
        (.error ((silentAmplifier index).inOperation "chain::run_serial")) (called :: rest)
  | onward {index : Nat} {signal value : Word} {m called : Machine} {rest left : List Machine}
      {result : Except Error Word}
      (returned : m.runToHalt fuel [signal] = some (.ok (some value), called))
      (passes : SerialPasses fuel (index + 1) value rest result left) :
      SerialPasses fuel index signal (m :: rest) result (called.drainOutput.2 :: left)

/-- A signal is sent around, from a machine at the given position to the last. -/
inductive FeedbackPasses (fuel : Nat) :
    Nat → Word → List Machine → Turn Word (Except Error Word) → List Machine → Prop
  | nothing {index : Nat} {signal : Word} : FeedbackPasses fuel index signal [] (.again signal) []
  | failed {index : Nat} {signal : Word} {m called : Machine} {rest : List Machine} {error : Error}
      (returned : m.runUntilOutput fuel [signal] = some (.error error, called)) :
      FeedbackPasses fuel index signal (m :: rest) (.done (.error (atAmplifier index error)))
        (called :: rest)
  | settled {index : Nat} {signal value : Word} {m called : Machine} {output : Option Word}
      (returned : m.runUntilOutput fuel [signal] = some (.ok output, called))
      (halted : called.isHalted = true) (newest : called.lastOutput = some value) :
      FeedbackPasses fuel index signal [m] (.done (.ok value)) [called.drainOutput.2]
  | silent {index : Nat} {signal : Word} {m called : Machine} {output : Option Word}
      (returned : m.runUntilOutput fuel [signal] = some (.ok output, called))
      (halted : called.isHalted = true) (newest : called.lastOutput = none) :
      FeedbackPasses fuel index signal [m]
        (.done (.error ((silentAmplifier index).inOperation "chain::run_feedback")))
        [called.drainOutput.2]
  | onward {index : Nat} {signal : Word} {m called : Machine} {rest left : List Machine}
      {output : Option Word} {turn : Turn Word (Except Error Word)}
      (returned : m.runUntilOutput fuel [signal] = some (.ok output, called))
      (further : ¬(called.isHalted && rest.isEmpty) = true)
      (passes : FeedbackPasses fuel (index + 1)
        (if called.isHalted then signal else output.getD signal) rest turn left) :
      FeedbackPasses fuel index signal (m :: rest) turn (called.drainOutput.2 :: left)

theorem serialPass_iff :
    serialPass fuel index signal machines = some (result, left) ↔
      SerialPasses fuel index signal machines result left := by
  constructor
  · intro passed
    induction machines generalizing index signal result left with
    | nil =>
        cases passed
        exact .nothing
    | cons m rest ih =>
        unfold serialPass at passed
        split at passed
        · cases passed
        · rename_i returned
          cases passed
          exact .failed returned
        · rename_i returned
          cases passed
          exact .silent returned
        · rename_i returned
          dsimp only at passed
          split at passed
          · cases passed
          · rename_i passedRest
            cases passed
            exact .onward returned (ih passedRest)
  · intro passes
    induction passes with
    | nothing => rfl
    | failed returned => simp only [serialPass, returned]
    | silent returned => simp only [serialPass, returned]
    | onward returned _ ih => simp only [serialPass, returned, ih]

theorem feedbackPass_iff :
    feedbackPass fuel index signal machines = some (turn, left) ↔
      FeedbackPasses fuel index signal machines turn left := by
  constructor
  · intro passed
    induction machines generalizing index signal turn left with
    | nil =>
        cases passed
        exact .nothing
    | cons m rest ih =>
        unfold feedbackPass at passed
        split at passed
        · cases passed
        · rename_i returned
          cases passed
          exact .failed returned
        · rename_i output called returned
          dsimp only at passed
          split at passed
          · rename_i both
            obtain ⟨halted, empty⟩ := Bool.and_eq_true_iff.mp both
            have last : rest = [] := List.isEmpty_iff.mp empty
            subst last
            split at passed
            · rename_i newest
              cases passed
              exact .settled returned halted newest
            · rename_i newest
              cases passed
              exact .silent returned halted newest
          · rename_i further
            split at passed
            · cases passed
            · rename_i passedRest
              cases passed
              exact .onward returned further (ih passedRest)
  · intro passes
    induction passes with
    | nothing => rfl
    | failed returned => simp only [feedbackPass, returned]
    | @settled index signal value m called output returned halted newest =>
        have haltedDrained : called.drainOutput.2.isHalted = true := halted
        have newestDrained : called.drainOutput.2.lastOutput = some value := newest
        simp only [feedbackPass, returned, haltedDrained, newestDrained, List.isEmpty_nil,
          Bool.and_self, ↓reduceIte]
    | @silent index signal m called output returned halted newest =>
        have haltedDrained : called.drainOutput.2.isHalted = true := halted
        have newestDrained : called.drainOutput.2.lastOutput = none := newest
        simp only [feedbackPass, returned, haltedDrained, newestDrained, List.isEmpty_nil,
          Bool.and_self, ↓reduceIte]
    | @onward index signal m called rest left output turn returned further _ ih =>
        have same : called.drainOutput.2.isHalted = called.isHalted := rfl
        simp only [feedbackPass, returned, same]
        rw [if_neg further, ih]

/-- The first pass of a loop that returns. -/
theorem feedback_cases
    (returned : iterate (feedbackTurn fuel) turns (signal, machines) = some (result, after)) :
    ∃ fewer turn left, turns = fewer + 1 ∧
      feedbackPass fuel 0 signal machines = some (turn, left) ∧
      ((∃ next, turn = .again next ∧
          iterate (feedbackTurn fuel) fewer (next, left) = some (result, after)) ∨
        turn = .done result ∧ after = ⟨left⟩) := by
  cases turns with
  | zero => cases returned
  | succ fewer =>
      unfold iterate feedbackTurn at returned
      cases passed : feedbackPass fuel 0 signal machines with
      | none =>
          simp only [passed] at returned
          cases returned
      | some pass =>
          obtain ⟨turn, left⟩ := pass
          refine ⟨fewer, turn, left, rfl, rfl, ?_⟩
          cases turn with
          | again next =>
              simp only [passed] at returned
              exact .inl ⟨next, rfl, returned⟩
          | done answer =>
              simp only [passed] at returned
              cases returned
              exact .inr ⟨rfl, rfl⟩

/-! ## Fuel -/

theorem SerialPasses.add (passes : SerialPasses fuel index signal machines result left)
    (more : Nat) : SerialPasses (fuel + more) index signal machines result left := by
  induction passes with
  | nothing => exact .nothing
  | failed returned => exact .failed (Machine.run_add returned more)
  | silent returned => exact .silent (Machine.run_add returned more)
  | onward returned _ ih => exact .onward (Machine.run_add returned more) ih

theorem FeedbackPasses.add (passes : FeedbackPasses fuel index signal machines turn left)
    (more : Nat) : FeedbackPasses (fuel + more) index signal machines turn left := by
  induction passes with
  | nothing => exact .nothing
  | failed returned => exact .failed (Machine.run_add returned more)
  | settled returned halted newest => exact .settled (Machine.run_add returned more) halted newest
  | silent returned halted newest => exact .silent (Machine.run_add returned more) halted newest
  | onward returned further _ ih => exact .onward (Machine.run_add returned more) further ih

theorem runSerial_add (returned : chain.runSerial fuel signal = some (result, after))
    (more : Nat) : chain.runSerial (fuel + more) signal = some (result, after) := by
  unfold runSerial at returned ⊢
  split at returned
  · cases returned
  · rename_i passed
    rw [serialPass_iff.mpr ((serialPass_iff.mp passed).add more)]
    exact returned

theorem runFeedback_add (returned : chain.runFeedback fuel signal = some (result, after))
    (more : Nat) : chain.runFeedback (fuel + more) signal = some (result, after) := by
  apply iterate_add
  apply iterate_mono _ returned
  intro state turn turned
  obtain ⟨signal, machines⟩ := state
  simp only [feedbackTurn] at turned ⊢
  split at turned
  · cases turned
  · rename_i passed
    rw [feedbackPass_iff.mpr ((feedbackPass_iff.mp passed).add more)]
    exact turned
  · rename_i passed
    rw [feedbackPass_iff.mpr ((feedbackPass_iff.mp passed).add more)]
    exact turned

theorem runFromZero_add {feedback : Bool}
    (returned : chain.runFromZero fuel feedback = some (result, after)) (more : Nat) :
    chain.runFromZero (fuel + more) feedback = some (result, after) := by
  cases feedback with
  | true => exact runFeedback_add returned more
  | false => exact runSerial_add returned more

end Chain

end Intcode
