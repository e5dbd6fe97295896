import Intcode.Proofs.FeedbackAgreement

/-! # Rings that starve

A feedback loop that runs its amplifiers in turn is over when the last of them halts, whatever the
others would have done. In a ring the others go on, and one that reads on when its feeder has
finished fails. So a loop may come to a value where the ring comes to an error
(`Ring.loop_comes_to_value_but_ring_starves`).

Whether the ring succeeds does not depend on the schedule. When the loop comes to a value, the ring
comes to that value under every schedule as soon as under one schedule all its tasks finish and none
fails (`Ring.succeeds_iff_none_fails`). -/

namespace Intcode

namespace Ring

variable {ring final : Ring} {who : Nat} {schedule : List Nat} {value : Word}

/-- The ring comes to a value under every schedule: none goes on forever, and along every one that
goes on for as long as it can all tasks finish, with that value as the result. -/
structure Succeeds (ring : Ring) (value : Word) : Prop where
  bounded : ∀ endless : Nat → Nat, ∃ length,
    follow step? ring ((List.range length).map endless) = none
  comes : ∀ taken last, follow step? ring taken = some last → Standstill step? last →
    last.isFinished = true ∧ last.result = .ok value

/-- A ring comes to a value under every schedule when it does so under one. -/
theorem succeeds_iff_some_schedule :
    ring.Succeeds value ↔ ∃ schedule final, follow step? ring schedule = some final ∧
      final.isFinished = true ∧ final.result = .ok value := by
  constructor
  · intro succeeds
    obtain ⟨schedule, final, followed, still⟩ := exists_standstill succeeds.bounded
    exact ⟨schedule, final, followed, succeeds.comes schedule final followed still⟩
  · rintro ⟨schedule, final, followed, finished, result⟩
    obtain ⟨bounded, agree⟩ := schedules_agree followed finished
    refine ⟨bounded, ?_⟩
    intro taken last reached still
    obtain ⟨ended, same, _⟩ := agree taken last reached still
    exact ⟨ended, (result_congr same).trans result⟩

/-- A finished task that did not fail ended with a newest output, if it put out anything. -/
theorem outcomeAt_of_finished (finished : ring.isFinished = true)
    (fine : ∀ who error, ring.outcomeAt who ≠ some (.error error))
    (inside : who < ring.tasks.length) : ∃ newest, ring.outcomeAt who = some (.ok newest) := by
  have ended : ring.tasks[who].isFinished = true :=
    List.all_eq_true.mp finished _ (List.getElem_mem inside)
  have here : ring.outcomeAt who = ring.tasks[who].outcome := by
    rw [outcomeAt, List.getElem?_eq_getElem inside, Option.bind_some]
  obtain ⟨outcome, came⟩ := Option.isSome_iff_exists.mp ended
  rw [came] at here
  cases outcome with
  | error error => exact absurd here (fine who error)
  | ok newest => exact ⟨newest, here⟩

/-- **Rings that follow a loop.** Let the loop that runs its amplifiers in turn come to a value.
Then the ring comes to that value under every schedule just when there is a schedule under which all
its tasks finish and none of them fails. -/
theorem succeeds_iff_none_fails {program : Program} {phases : List Word} {input value : Word}
    {chain after : Chain} {fuel : Nat} (built : Chain.ofPhases program phases = .ok chain)
    (returned : chain.runFeedback fuel input = some (.ok value, after)) :
    (ofPhases program phases input).Succeeds value ↔
      ∃ schedule final, follow step? (ofPhases program phases input) schedule = some final ∧
        final.isFinished = true ∧ ∀ who error, final.outcomeAt who ≠ some (.error error) := by
  rw [succeeds_iff_some_schedule]
  constructor
  · rintro ⟨schedule, final, followed, finished, result⟩
    exact ⟨schedule, final, followed, finished, (outcomes_of_result result).1⟩
  · rintro ⟨schedule, final, followed, finished, fine⟩
    have prospers : Prospers (ofPhases program phases input) final :=
      ⟨⟨schedule, final, followed, rfl⟩, finished, fine⟩
    have ended := (mirrors_ofPhases built input).loop_follows prospers returned
    exact ⟨schedule, final, followed, finished,
      result_of_no_failure (fun _ inside => outcomeAt_of_finished finished fine inside) ended⟩

/-! ## A loop and its ring -/

/-- A program that reads its phase setting and passes signals on, a single one unless the phase
setting is zero. -/
def repeater : Program :=
  ⟨[3, 10, 3, 11, 4, 11, 1006, 10, 2, 99, 0, 0]⟩

/-- A repeater without scratch cells that was given its phase setting. -/
def bareRepeater (phase : Word) : Machine :=
  Chain.amplifier repeater { scratchCells := 0, underrun := .error } phase

/-- With the usual scratch cells it is an amplifier of a ring. -/
theorem widen_bareRepeater (phase : Word) :
    (bareRepeater phase).widen defaultScratch = Chain.amplifier repeater Config.strict phase :=
  @Chain.amplifier_widen repeater { scratchCells := 0, underrun := .error } _ (by decide) phase

/-- A loop of two bare repeaters that comes to a value is a loop of two amplifiers that does. -/
theorem repeaters_loop {first second input : Word} {fuel : Nat} {after : Chain}
    (returned : Chain.runFeedback fuel input ⟨[bareRepeater first, bareRepeater second]⟩ =
      some (.ok value, after)) :
    ∃ chain after, Chain.ofPhases repeater [first, second] = .ok chain ∧
      chain.runFeedback fuel input = some (.ok value, after) := by
  have wide := Chain.runFeedback_widen returned defaultScratch
  rw [List.map_cons, List.map_cons, List.map_nil, widen_bareRepeater, widen_bareRepeater] at wide
  exact ⟨_, _, rfl, wide⟩

theorem repeaters_ring {first second input : Word}
    (followed : follow step? ⟨[{ machine := (bareRepeater first).feed [input] },
      { machine := bareRepeater second }]⟩ schedule = some final)
    (inside : ∀ who result, final.outcomeAt who = some result → ¬OutOfBounds result) :
    follow step? (ofPhases repeater [first, second] input) schedule =
      some (final.widen defaultScratch) := by
  have wide := follow_widen followed inside defaultScratch
  have same : Ring.widen ⟨[{ machine := (bareRepeater first).feed [input] },
      { machine := bareRepeater second }]⟩ defaultScratch =
        ⟨[{ machine := ((bareRepeater first).widen defaultScratch).feed [input] },
          { machine := (bareRepeater second).widen defaultScratch }]⟩ := rfl
  rw [same, widen_bareRepeater, widen_bareRepeater] at wide
  exact wide

/-- Two repeaters that pass a single signal on follow their loop. -/
theorem single_repeaters_succeed : ∃ chain after fuel,
    Chain.ofPhases repeater [1, 1] = .ok chain ∧
      chain.runFeedback fuel 5 = some (.ok 5, after) ∧ (ofPhases repeater [1, 1] 5).Succeeds 5 := by
  have bare : ∃ after, Chain.runFeedback 6 5 ⟨[bareRepeater 1, bareRepeater 1]⟩ =
      some (.ok 5, after) := ⟨_, rfl⟩
  obtain ⟨_, returnedBare⟩ := bare
  obtain ⟨chain, after, built, returned⟩ := repeaters_loop returnedBare
  have found : ∃ final, follow step?
      ⟨[{ machine := (bareRepeater 1).feed [5] }, { machine := bareRepeater 1 }]⟩
        [0, 0, 0, 0, 0, 1, 1, 1, 1, 1] = some final ∧
      final.isFinished = true ∧ final.result = .ok 5 := ⟨_, rfl, rfl, rfl⟩
  obtain ⟨final, followed, finished, result⟩ := found
  have wide := repeaters_ring followed
    (fun who _ ended ⟨error, failed, _⟩ => (outcomes_of_result result).1 who error (failed ▸ ended))
  have wideResult := (final.result_widen defaultScratch).trans result
  have succeeds := (succeeds_iff_none_fails built returned).mpr
    ⟨_, _, wide, (final.isFinished_widen _).trans finished, (outcomes_of_result wideResult).1⟩
  exact ⟨chain, after, 6, built, returned, succeeds⟩

/-- A loop of two repeaters is over when the second has passed a signal on. In the ring the first,
whose phase setting is zero, reads on: its channel is closed, and the ring does not succeed. -/
theorem loop_comes_to_value_but_ring_starves :
    (∃ chain after fuel, Chain.ofPhases repeater [0, 1] = .ok chain ∧
      chain.runFeedback fuel 5 = some (.ok 5, after)) ∧
    (∃ schedule final error, follow step? (ofPhases repeater [0, 1] 5) schedule = some final ∧
      final.isFinished = true ∧ final.result = .error error ∧ error.kind = .channelClosed) ∧
    ∀ value, ¬(ofPhases repeater [0, 1] 5).Succeeds value := by
  have bare : ∃ after, Chain.runFeedback 8 5 ⟨[bareRepeater 0, bareRepeater 1]⟩ =
      some (.ok 5, after) := ⟨_, rfl⟩
  obtain ⟨_, returnedBare⟩ := bare
  obtain ⟨chain, after, built, returned⟩ := repeaters_loop returnedBare
  have found : ∃ final error, follow step?
      ⟨[{ machine := (bareRepeater 0).feed [5] }, { machine := bareRepeater 1 }]⟩
        [0, 0, 0, 0, 1, 1, 1, 1, 1, 0, 0, 0, 0] = some final ∧
      final.isFinished = true ∧ final.result = .error error ∧ error.kind = .channelClosed ∧
      final.tasks.map (·.outcome) = [some (.error error), some (.ok (some 5))] :=
    ⟨_, _, rfl, rfl, rfl, rfl, rfl⟩
  obtain ⟨final, error, followed, finished, failed, kind, outcomes⟩ := found
  have inside : ∀ who result, final.outcomeAt who = some result → ¬OutOfBounds result := by
    intro who result ended
    obtain ⟨task, here, ended⟩ := Option.bind_eq_some_iff.mp ended
    have among : some result ∈ final.tasks.map (·.outcome) :=
      List.mem_map.mpr ⟨task, List.mem_of_getElem? here, ended⟩
    rw [outcomes, List.mem_cons, List.mem_singleton] at among
    rcases among with same | same
    · cases same
      rintro ⟨_, same, outside⟩
      cases same
      cases kind.symm.trans outside
    · cases same
      exact not_outOfBounds_ok _
  have wide := repeaters_ring followed inside
  have wideFinished := (final.isFinished_widen defaultScratch).trans finished
  have wideFailed := (final.result_widen defaultScratch).trans failed
  refine ⟨⟨chain, after, 8, built, returned⟩,
    ⟨_, _, error, wide, wideFinished, wideFailed, kind⟩, ?_⟩
  intro value succeeds
  have result := (succeeds.comes _ _ wide (standstill_of_isFinished wideFinished)).2
  cases wideFailed.symm.trans result

end Ring

end Intcode
