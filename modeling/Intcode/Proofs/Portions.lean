import Intcode.Proofs.Runs

/-! # Input in portions

A run to the next input reads from the queue alone, and what is queued behind the values it reads
has no part in it (`Machine.execute_of_feed`). So a run that is given two portions at once comes to
what a run on the first comes to and, unless that one stopped the machine for good, a run on the
second (`Machine.runUntilInput_append_iff`). Hence it does not matter in which portions input is
supplied (`Machine.portions_agree_with_one_run`), but for one thing: a machine that has stopped
takes no further portion in, while a single run has queued everything before it stops. -/

namespace Intcode

namespace Machine

variable {m mid next after last final whole : Machine} {outcome : Except Error Step}
  {result : RunResult} {outputs first second portion values untaken : List Word}
  {portions : List (List Word)}

/-- Runs to the next input, made one after the other, of which each is given a portion. The portions
given to a machine that had stopped for good are left untaken. -/
inductive Served : Machine → List (List Word) → List Word → Machine → Prop
  | nothing (m : Machine) : Served m [] [] m
  | portion {m next last : Machine} {fuel : Nat} {result : RunResult} {portion : List Word}
      {portions : List (List Word)} {untaken : List Word}
      (returned : m.runUntilInput fuel portion = some (result, next))
      (rest : Served next portions untaken last) :
      Served m (portion :: portions) ((if m.state.isTerminal then portion else []) ++ untaken) last

/-! ## What is queued behind -/

/-- An instruction that waits without certain values behind its queue does the same with them. -/
theorem execute_of_feed (executed : (m.feed values).execute .queue = (outcome, after)) :
    m.execute .queue = (.ok .needsInput, m) ∨
      ∃ next, m.execute .queue = (outcome, next) ∧ outcome ≠ .ok .needsInput ∧
        after = next.feed values := by
  cases came : m.execute .queue with
  | mk first next =>
      by_cases waits : first = .ok .needsInput
      · subst waits
        obtain ⟨rfl, _⟩ := eq_of_execute_queue_waits came
        exact .inl rfl
      · have fed := ((execute_eq_iff.mp came).feed waits values).execute_eq
        rw [executed] at fed
        cases fed
        exact .inr ⟨next, rfl, waits, rfl⟩

theorem GoesOn.feed (goesOn : GoesOn .onInput m outputs mid) (values : List Word) :
    GoesOn .onInput (m.feed values) outputs (mid.feed values) := by
  induction goesOn with
  | here m => exact .here _
  | executed first _ ih =>
      exact .executed ((execute_eq_iff.mp first).feed nofun values).execute_eq ih
  | output unconcerned first _ ih =>
      exact .output unconcerned ((execute_eq_iff.mp first).feed nofun values).execute_eq ih

/-- A run with values behind its queue goes as far as it would without them, and further only from
where it would wait. -/
theorem GoesOn.of_feed (goesOn : GoesOn .onInput (m.feed values) outputs last) :
    (∃ mid, GoesOn .onInput m outputs mid ∧ last = mid.feed values) ∨
      ∃ early mid late, GoesOn .onInput m early mid ∧
        mid.execute .queue = (.ok .needsInput, mid) ∧
        GoesOn .onInput (mid.feed values) late last := by
  generalize start : m.feed values = fed at goesOn
  induction goesOn generalizing m with
  | here fed => exact .inl ⟨m, .here m, start.symm⟩
  | @executed fed after last outputs executed rest ih =>
      subst start
      rcases execute_of_feed executed with waits | ⟨next, came, _, rfl⟩
      · exact .inr ⟨[], m, _, .here m, waits, .executed executed rest⟩
      · rcases ih rfl with ⟨mid, goesOn, rfl⟩ | ⟨early, mid, late, goesOn, waits, onward⟩
        · exact .inl ⟨mid, .executed came goesOn, rfl⟩
        · exact .inr ⟨early, mid, late, .executed came goesOn, waits, onward⟩
  | @output fed after last value outputs unconcerned executed rest ih =>
      subst start
      rcases execute_of_feed executed with waits | ⟨next, came, _, rfl⟩
      · exact .inr ⟨[], m, _, .here m, waits, .output unconcerned executed rest⟩
      · rcases ih rfl with ⟨mid, goesOn, rfl⟩ | ⟨early, mid, late, goesOn, waits, onward⟩
        · exact .inl ⟨mid, .output unconcerned came goesOn, rfl⟩
        · exact .inr ⟨_, mid, late, .output unconcerned came goesOn, waits, onward⟩

/-! ## The end of a run to the next input -/

/-- A run to the next input ends with a wait or for good. -/
theorem Ends.waits_or_stops (ends : Ends .onInput m result final) :
    m.execute .queue = (.ok .needsInput, m) ∧ result = .ok m.lastOutput ∧
        final = { m with state := .paused } ∨
      final.state.isTerminal = true := by
  cases ends with
  | output occasion ended => cases occasion
  | needsInput ended =>
      obtain ⟨rfl, _⟩ := eq_of_execute_queue_waits ended
      exact .inl ⟨ended, rfl, rfl⟩
  | halted ended => exact .inr rfl
  | failed ended => exact .inr rfl

/-- What is queued behind does not keep a run from stopping. -/
theorem Ends.feed (ends : Ends .onInput m result final) (stopped : final.state.isTerminal = true)
    (values : List Word) : Ends .onInput (m.feed values) result (final.feed values) := by
  cases ends with
  | output occasion ended => cases occasion
  | needsInput ended => cases stopped
  | @halted next ended =>
      have fed : (m.feed values).execute .queue = (.ok .halted, next.feed values) :=
        ((execute_eq_iff.mp ended).feed nofun values).execute_eq
      exact @Ends.halted .onInput _ _ fed
  | @failed error next ended =>
      have fed : (m.feed values).execute .queue = (.error error, next.feed values) :=
        ((execute_eq_iff.mp ended).feed nofun values).execute_eq
      exact @Ends.failed .onInput _ _ _ fed

theorem Ends.of_feed (ends : Ends .onInput (m.feed values) result final) :
    m.execute .queue = (.ok .needsInput, m) ∨
      ∃ stopped, Ends .onInput m result stopped ∧ stopped.state.isTerminal = true ∧
        final = stopped.feed values := by
  cases ends with
  | output occasion ended => cases occasion
  | needsInput ended =>
      rcases execute_of_feed ended with waits | ⟨next, _, fed, _⟩
      · exact .inl waits
      · exact absurd rfl fed
  | halted ended =>
      rcases execute_of_feed ended with waits | ⟨next, came, _, rfl⟩
      · exact .inl waits
      · exact .inr ⟨{ next with state := .halted }, @Ends.halted .onInput _ _ came, rfl, rfl⟩
  | failed ended =>
      rcases execute_of_feed ended with waits | ⟨next, came, _, rfl⟩
      · exact .inl waits
      · exact .inr ⟨{ next with state := .failed }, @Ends.failed .onInput _ _ _ came, rfl, rfl⟩

/-! ## Two portions -/

theorem feed_nil (m : Machine) : m.feed [] = m := by
  simp only [feed, Bridge.feed, List.append_nil]

theorem started_append (m : Machine) (first second : List Word) :
    m.started (first ++ second) = (m.started first).feed second := by
  simp only [started, feed, Bridge.feed, List.append_assoc]

/-- A run from where another waited begins with what was left of the machine there. -/
theorem started_paused (running : mid.state = .running) (values : List Word) :
    { mid with state := .paused }.started values = mid.feed values := by
  unfold started
  rw [← running]
  rfl

/-- **Two portions.** A run that is given two portions at once comes to what a run on the first
comes to, with the second queued behind when that stops the machine for good, and otherwise to what
a run on the second comes to from there. -/
theorem runUntilInput_append_iff (live : m.state.isTerminal = false) (first second : List Word) :
    (∃ fuel, m.runUntilInput fuel (first ++ second) = some (result, whole)) ↔
      ∃ fuel answer next, m.runUntilInput fuel first = some (answer, next) ∧
        (next.state.isTerminal = true ∧ result = answer ∧ whole = next.feed second ∨
          next.state.isTerminal = false ∧
            ∃ fuel, next.runUntilInput fuel second = some (result, whole)) := by
  unfold runUntilInput
  rw [run_returns_iff live, started_append]
  constructor
  · rintro ⟨outputs, last, goesOn, ends⟩
    -- Where the run on the first portion waits, if it does, the run on the second goes on.
    have resumes {early late : List Word} {mid : Machine}
        (reached : GoesOn .onInput (m.started first) early mid)
        (waits : mid.execute .queue = (.ok .needsInput, mid))
        (onward : GoesOn .onInput (mid.feed second) late last) :
        ∃ fuel answer next, m.run .onInput fuel first = some (answer, next) ∧
          next.state.isTerminal = false ∧
            ∃ fuel, next.run .onInput fuel second = some (result, whole) := by
      obtain ⟨fuel, returned⟩ :=
        (run_returns_iff live).mpr ⟨early, mid, reached, .needsInput waits⟩
      refine ⟨fuel, _, _, returned, rfl, (run_returns_iff rfl).mpr ⟨late, last, ?_, ends⟩⟩
      rwa [started_paused reached.state_eq]
    rcases goesOn.of_feed with ⟨mid, reached, rfl⟩ | ⟨early, mid, late, reached, waits, onward⟩
    · rcases ends.of_feed with waits | ⟨stopped, endsThere, terminal, rfl⟩
      · obtain ⟨fuel, answer, next, returned, further⟩ := resumes reached waits (.here _)
        exact ⟨fuel, answer, next, returned, .inr further⟩
      · obtain ⟨fuel, returned⟩ := (run_returns_iff live).mpr ⟨outputs, mid, reached, endsThere⟩
        exact ⟨fuel, result, stopped, returned, .inl ⟨terminal, rfl, rfl⟩⟩
    · obtain ⟨fuel, answer, next, returned, further⟩ := resumes reached waits onward
      exact ⟨fuel, answer, next, returned, .inr further⟩
  · rintro ⟨fuel, answer, next, returned, ⟨terminal, rfl, rfl⟩ | ⟨liveNext, further⟩⟩
    · obtain ⟨outputs, mid, reached, ends⟩ := (run_returns_iff live).mp ⟨fuel, returned⟩
      exact ⟨outputs, mid.feed second, reached.feed second, ends.feed terminal second⟩
    · obtain ⟨outputs, mid, reached, ends⟩ := (run_returns_iff live).mp ⟨fuel, returned⟩
      obtain ⟨others, last, onward, stops⟩ := (run_returns_iff liveNext).mp further
      rcases ends.waits_or_stops with ⟨_, _, rfl⟩ | terminal
      · rw [started_paused reached.state_eq] at onward
        exact ⟨outputs ++ others, last, (reached.feed second).trans onward, stops⟩
      · rw [liveNext] at terminal
        cases terminal

/-! ## Any portions -/

/-- A machine that has stopped for good takes nothing in. -/
theorem Served.of_terminal (served : Served m portions untaken last)
    (terminal : m.state.isTerminal = true) : last = m ∧ untaken = portions.flatten := by
  induction served with
  | nothing m => exact ⟨rfl, rfl⟩
  | portion returned _ ih =>
      cases eq_of_run_of_terminal terminal returned
      obtain ⟨same, others⟩ := ih terminal
      refine ⟨same, ?_⟩
      rw [terminal, others]
      rfl

theorem exists_served_of_terminal (terminal : m.state.isTerminal = true)
    (portions : List (List Word)) : Served m portions portions.flatten m := by
  induction portions with
  | nil => exact .nothing m
  | cons portion portions ih =>
      have returned : ∃ result, m.runUntilInput 0 portion = some (result, m) := by
        rcases State.halted_or_failed terminal with halted | failed
        · exact ⟨_, run_of_halted halted ..⟩
        · exact ⟨_, run_of_failed failed ..⟩
      obtain ⟨result, returned⟩ := returned
      have served := Served.portion returned ih
      rwa [terminal] at served

/-- As long as a machine has not stopped for good, it takes everything in. -/
theorem Served.taken_of_live (served : Served m portions untaken last)
    (live : last.state.isTerminal = false) : untaken = [] := by
  induction served with
  | nothing m => rfl
  | @portion m next last fuel result portion portions untaken returned rest ih =>
      cases terminal : m.state.isTerminal with
      | false =>
          rw [ih live]
          rfl
      | true =>
          cases eq_of_run_of_terminal terminal returned
          rw [(rest.of_terminal terminal).1, terminal] at live
          cases live

/-- What a machine is served in portions a single run comes to. -/
theorem Served.run (served : Served m (portion :: portions) untaken last)
    (live : m.state.isTerminal = false) :
    ∃ fuel result, m.runUntilInput fuel (portion :: portions).flatten =
      some (result, last.feed untaken) := by
  -- By induction on the portions behind the first.
  induction portions generalizing m portion untaken with
  | nil =>
      cases served with
      | @portion _ next _ fuel result _ _ _ returned rest =>
          cases rest
          refine ⟨fuel, result, ?_⟩
          rw [live, List.flatten_cons, List.flatten_nil, List.append_nil, returned]
          simp only [Bool.false_eq_true, ↓reduceIte, List.append_nil, feed_nil]
  | cons second others ih =>
      cases served with
      | @portion _ next _ fuel answer _ _ untaken returned rest =>
          rw [live, if_neg Bool.false_ne_true, List.nil_append, List.flatten_cons]
          rw [exists_comm]
          cases terminal : next.state.isTerminal with
          | true =>
              obtain ⟨rfl, rfl⟩ := rest.of_terminal terminal
              exact ⟨answer, (runUntilInput_append_iff live portion _).mpr
                ⟨fuel, answer, last, returned, .inl ⟨terminal, rfl, rfl⟩⟩⟩
          | false =>
              obtain ⟨enough, result, further⟩ := ih rest terminal
              exact ⟨result, (runUntilInput_append_iff live portion _).mpr
                ⟨fuel, answer, next, returned, .inr ⟨terminal, enough, further⟩⟩⟩

/-- Where a single run returns, the runs on its portions return. -/
theorem exists_served {fuel : Nat} (live : m.state.isTerminal = false)
    (returned : m.runUntilInput fuel (portion :: portions).flatten = some (result, whole)) :
    ∃ untaken last, Served m (portion :: portions) untaken last := by
  induction portions generalizing m portion fuel with
  | nil =>
      rw [List.flatten_cons, List.flatten_nil, List.append_nil] at returned
      exact ⟨_, _, .portion returned (.nothing whole)⟩
  | cons second others ih =>
      rw [List.flatten_cons] at returned
      obtain ⟨enough, answer, next, first, ⟨terminal, _⟩ | ⟨liveNext, more, further⟩⟩ :=
        (runUntilInput_append_iff live portion _).mp ⟨fuel, returned⟩
      · exact ⟨_, _, .portion first (exists_served_of_terminal terminal _)⟩
      · obtain ⟨untaken, last, served⟩ := ih liveNext further
        exact ⟨_, _, .portion first served⟩

/-- Runs to the next input leave the provider alone. -/
theorem Served.unasked (served : Served m portions untaken last) :
    last.bridge.provider = m.bridge.provider ∧ last.bridge.asked = m.bridge.asked := by
  induction served with
  | nothing m => exact ⟨rfl, rfl⟩
  | @portion m next last fuel result portion portions untaken returned _ ih =>
      have kept : next.bridge.provider = m.bridge.provider ∧ next.bridge.asked = m.bridge.asked := by
        apply run_preserves (P := fun mid => mid.bridge.provider = m.bridge.provider ∧
          mid.bridge.asked = m.bridge.asked) _ _ returned ⟨rfl, rfl⟩ ⟨rfl, rfl⟩
        · intro here after outcome executed same
          obtain ⟨provider, asked⟩ := executed.unasked
          exact ⟨provider.trans same.1, asked.trans same.2⟩
        · intro here state same
          exact same
      exact ⟨ih.1.trans kept.1, ih.2.trans kept.2⟩

/-- **Input in portions.** Let a machine that is not terminal be run to the next input with one
portion after the other. When these runs return, so does a single run on all the portions together,
and it leaves the same machine, but for the portions that were passed after the machine had stopped
for good: the single run has queued them. When it has not stopped there are none, and the provider
was not asked in any case. Conversely, when the single run returns, so do the runs on the portions.
-/
theorem portions_agree_with_one_run (live : m.state.isTerminal = false) (portion : List Word)
    (portions : List (List Word)) :
    (∀ untaken last, Served m (portion :: portions) untaken last →
      (∃ fuel result, m.runUntilInput fuel (portion :: portions).flatten =
        some (result, last.feed untaken)) ∧
      (last.state.isTerminal = false → untaken = []) ∧
      last.bridge.provider = m.bridge.provider ∧ last.bridge.asked = m.bridge.asked) ∧
    ∀ fuel result whole, m.runUntilInput fuel (portion :: portions).flatten = some (result, whole) →
      ∃ untaken last, Served m (portion :: portions) untaken last := by
  constructor
  · intro untaken last served
    exact ⟨served.run live, served.taken_of_live, served.unasked⟩
  · intro fuel result whole returned
    exact exists_served live returned

/-- A machine that reads two words into its first cell and halts. -/
def modest : Machine :=
  ofProgram ⟨[3, 0, 3, 0, 99]⟩ { scratchCells := 0 }

/-- Given three words one by one it takes two; given all of them at once it leaves the third in its
queue. -/
theorem modest_portions_agree :
    modest.state.isTerminal = false ∧ ∃ last, Served modest [[5], [6], [7]] [7] last ∧
      last.state = .halted ∧ last.bridge.input = [] ∧
      ∃ fuel result, modest.runUntilInput fuel [5, 6, 7] = some (result, last.feed [7]) := by
  have served : ∃ last, Served modest [[5], [6], [7]] [7] last ∧ last.state = .halted ∧
      last.bridge.input = [] :=
    ⟨_, @Served.portion _ _ _ 2 _ _ _ _ rfl (@Served.portion _ _ _ 2 _ _ _ _ rfl
      (@Served.portion _ _ _ 0 _ _ _ _ rfl (.nothing _))), rfl, rfl⟩
  obtain ⟨last, served, halted, empty⟩ := served
  obtain ⟨single, _⟩ := (portions_agree_with_one_run rfl [5] [[6], [7]]).1 _ last served
  exact ⟨rfl, last, served, halted, empty, single⟩

end Machine

end Intcode
